/-
The limits on redemptions, over runs of `apply_coupon`.

How often a coupon may be redeemed, and how often by one user, is counted
before each redemption and holds in every run. Once for each order rests on
the key alone, which is the caller's or is made of the order and the code as
it was typed: under another spelling, or another key, the same coupon is
redeemed for the order again. `redemptions_stay_sound` is about runs in which
a call for an order that has the coupon already comes under a key that was
used.
-/
import Falaron.CouponEngine
import Falaron.OrderMonitor

namespace Falaron.Core

open Py (Decimal)
open Txn.Prog (wp wp_bind wp_query)

/-! ## Runs -/

structure RedeemCall where
  now : Time
  args : RedeemArgs
  /-- The caller commits when the call raises. -/
  keep : Bool

section

variable (repr : String → String)

def RedeemCall.step (db : Db) (c : RedeemCall) : Db := (applyCoupon repr c.now c.args).commit (keptAfter c.keep) db

def redeemRun (start : Db) (calls : List RedeemCall) : Db := calls.foldl (RedeemCall.step repr) start

/-- The call passes every check of the engine and of the table but the one on its key. -/
structure RedeemCall.Passes (db : Db) (c : RedeemCall) (coupon : Coupon) (discount : Decimal) : Prop where
  valid : validateCoupon repr c.now db c.args.code c.args.userId c.args.serviceId c.args.categoryId c.args.orderTotal =
    .ok coupon
  worth : calculateDiscount coupon c.args.orderTotal = .ok discount
  held : (fits (stored discount) && shortEnough 36 c.args.orderId && shortEnough 256 c.args.key) = true

/-- A call that passes for a coupon and an order that have a redemption comes under a key that was used. -/
def RedeemCall.KeyUsed (db : Db) (c : RedeemCall) : Prop :=
  ∀ coupon discount, c.Passes repr db coupon discount →
    (∃ r ∈ db.redemptions, r.couponId = coupon.id ∧ r.orderId = c.args.orderId) →
    ∃ r ∈ db.redemptions, r.idempotencyKey = c.args.key

end

/-- Once for a coupon and an order, and no more often than the coupon allows, in all and to each user. -/
structure Db.RedemptionsSound (db : Db) : Prop where
  once : db.redemptions.Pairwise fun r r' => ¬ (r.couponId = r'.couponId ∧ r.orderId = r'.orderId)
  total : ∀ c ∈ db.coupons, ∀ n, c.totalLimit = some n → db.used c (fun _ => true) ≤ max n 0
  perUser : ∀ c ∈ db.coupons, ∀ u, db.used c (·.userId = u) ≤ max c.perUserLimit 0

/-! ## One call -/

section

variable {repr : String → String} {db : Db} {c : RedeemCall} {coupon : Coupon} {discount : Decimal}

theorem RedeemCall.admits_iff (hvalid : validateCoupon repr c.now db c.args.code c.args.userId c.args.serviceId
    c.args.categoryId c.args.orderTotal = .ok coupon)
    (hworth : calculateDiscount coupon c.args.orderTotal = .ok discount) :
    (Stmt.insertRedemption (c.args.redemption coupon discount)).admits db = true ↔
      (∀ r ∈ db.redemptions, r.idempotencyKey ≠ c.args.key) ∧ c.Passes repr db coupon discount := by
  simp only [Stmt.insertRedemption, Bool.and_eq_true, List.all_eq_true, decide_eq_true_iff]
  constructor
  · rintro ⟨⟨⟨hnew, hfits⟩, horder⟩, hkey⟩
    refine ⟨hnew, hvalid, hworth, ?_⟩
    simp only [Bool.and_eq_true]
    exact ⟨⟨hfits, horder⟩, hkey⟩
  · rintro ⟨hnew, hpass⟩
    have hheld := hpass.held
    simp only [Bool.and_eq_true] at hheld
    exact ⟨⟨⟨hnew, hheld.1.1⟩, hheld.1.2⟩, hheld.2⟩

/-- A call does nothing, or it passes under a new key and adds its redemption. -/
theorem RedeemCall.step_cases (repr : String → String) (db : Db) (c : RedeemCall) : c.step repr db = db ∨ ∃ coupon discount, c.Passes repr db coupon discount ∧
    (∀ r ∈ db.redemptions, r.idempotencyKey ≠ c.args.key) ∧
    c.step repr db = { db with redemptions := db.redemptions ++ [c.args.redemption coupon discount] } := by
  refine Txn.Prog.commit_of_ended (P := fun db' => db' = db ∨ ∃ coupon discount, c.Passes repr db coupon discount ∧
    (∀ r ∈ db.redemptions, r.idempotencyKey ≠ c.args.key) ∧
    db' = { db with redemptions := db.redemptions ++ [c.args.redemption coupon discount] }) (.inl rfl) ?_
  refine wp_applyCoupon rfl (fun _ _ => ⟨rfl, .inl rfl⟩) (fun _ h => by simp [keptAfter] at h)
    (fun _ _ _ => ⟨rfl, .inl rfl⟩) fun coupon discount hvalid hworth hadmits => ⟨rfl, .inr ⟨coupon, discount, ?_⟩⟩
  obtain ⟨hnew, hpass⟩ := (RedeemCall.admits_iff hvalid hworth).mp hadmits
  exact ⟨hpass, hnew, rfl⟩

theorem used_append {counts : CouponRedemption → Bool} {r : CouponRedemption} (coupon : Coupon) :
    ({ db with redemptions := db.redemptions ++ [r] } : Db).used coupon counts =
      db.used coupon counts + if r.couponId = coupon.id && counts r then 1 else 0 := by
  unfold Db.used
  simp only [List.filter_append, List.length_append, List.filter_cons, List.filter_nil]
  split <;> simp

theorem validateCoupon_limits {now : Time} {code : String} {userId : Int} {serviceId categoryId : Option Int}
    {orderTotal : Decimal}
    (h : validateCoupon repr now db code userId serviceId categoryId orderTotal = .ok coupon) :
    coupon ∈ db.coupons ∧ (∀ n, coupon.totalLimit = some n → db.used coupon (fun _ => true) < n) ∧
      db.used coupon (·.userId = userId) < coupon.perUserLimit := by
  unfold validateCoupon at h
  cases hfind : db.findCoupon code with
  | none =>
    rw [hfind] at h
    cases h
  | some found =>
    simp only [hfind] at h
    split at h
    · cases h
    split at h
    · cases h
    next htotal =>
    split at h
    · cases h
    next huser =>
    split at h
    · cases h
    split at h
    · cases h
    split at h
    · cases h
    cases h
    refine ⟨List.mem_of_find?_eq_some hfind, fun n hn => ?_, not_le.mp huser⟩
    rw [hn] at htotal
    simpa using htotal

/-- The limits are kept by every call. -/
theorem Db.RedemptionsSound.limits_step (h : db.RedemptionsSound) (hids : (db.coupons.map (·.id)).Nodup)
    (hpass : c.Passes repr db coupon discount) :
    let db' : Db := { db with redemptions := db.redemptions ++ [c.args.redemption coupon discount] }
    (∀ x ∈ db.coupons, ∀ n, x.totalLimit = some n → db'.used x (fun _ => true) ≤ max n 0) ∧
      ∀ x ∈ db.coupons, ∀ u, db'.used x (·.userId = u) ≤ max x.perUserLimit 0 := by
  obtain ⟨hmem, htotal, huser⟩ := validateCoupon_limits hpass.valid
  constructor
  · intro x hx n hn
    rw [used_append]
    by_cases hsame : coupon.id = x.id
    · obtain rfl : coupon = x := List.inj_on_of_nodup_map hids hmem hx hsame
      have hroom := htotal n hn
      split <;> omega
    · rw [if_neg (by simp [RedeemArgs.redemption, hsame]), add_zero]
      exact h.total x hx n hn
  · intro x hx u
    rw [used_append]
    by_cases hsame : coupon.id = x.id ∧ c.args.userId = u
    · obtain ⟨hid, rfl⟩ := hsame
      obtain rfl : coupon = x := List.inj_on_of_nodup_map hids hmem hx hid
      split <;> omega
    · have hno : ¬ (decide ((c.args.redemption coupon discount).couponId = x.id) &&
          decide ((c.args.redemption coupon discount).userId = u)) = true := by
        rw [Bool.and_eq_true, decide_eq_true_iff, decide_eq_true_iff]
        exact hsame
      rw [if_neg hno, add_zero]
      exact h.perUser x hx u

/-- A call under the condition on its key keeps all three. -/
theorem Db.RedemptionsSound.step (h : db.RedemptionsSound) (hids : (db.coupons.map (·.id)).Nodup)
    (hkey : c.KeyUsed repr db) : (c.step repr db).RedemptionsSound := by
  rcases c.step_cases repr db with hsame | ⟨coupon, discount, hpass, hnew, hstep⟩
  · rw [hsame]
    exact h
  rw [hstep]
  obtain ⟨htotal, huser⟩ := h.limits_step hids hpass
  refine ⟨List.pairwise_append.mpr ⟨h.once, List.pairwise_singleton .., fun r hr r' hr' hboth => ?_⟩, htotal, huser⟩
  obtain rfl := List.mem_singleton.mp hr'
  obtain ⟨used, hused, hk⟩ := hkey coupon discount hpass ⟨r, hr, hboth⟩
  exact hnew used hused hk

/-- A call that passes under a new key redeems. -/
theorem RedeemCall.run_of_passes (hpass : c.Passes repr db coupon discount)
    (hnew : ∀ r ∈ db.redemptions, r.idempotencyKey ≠ c.args.key) :
    (applyCoupon repr c.now c.args).run { db := db } =
      (.ok discount, { db := { db with redemptions := db.redemptions ++ [c.args.redemption coupon discount] } }) := by
  have hfind : db.redemptions.find? (·.idempotencyKey == c.args.key) = none :=
    List.find?_eq_none.mpr fun x hx => by simpa using hnew x hx
  exact applyCoupon_run hpass.valid hpass.worth hfind ((admits_iff hpass.valid hpass.worth).mpr ⟨hnew, hpass⟩)

/-- The condition is exact: a call that does not meet it redeems a coupon again for an order. -/
theorem RedeemCall.keyUsed_of_sound (h : (c.step repr db).RedemptionsSound) : c.KeyUsed repr db := by
  rintro coupon discount hpass ⟨r, hr, hboth⟩
  by_contra hnew
  have honce := h.once
  rw [RedeemCall.step, Txn.Prog.commit, c.run_of_passes hpass fun x hx hk => hnew ⟨x, hx, hk⟩] at honce
  exact (List.pairwise_append.mp honce).2.2 r hr _ (List.mem_singleton_self _) hboth

theorem RedeemCall.step_coupons : (c.step repr db).coupons = db.coupons := by
  rcases c.step_cases repr db with hsame | ⟨coupon, discount, -, -, hstep⟩
  · rw [hsame]
  · rw [hstep]

/-! ## Runs of calls -/

/-- **The limits on redemptions hold** in every state of a run in which a call
for a coupon and an order that have a redemption comes under a key that was
used. -/
theorem redemptions_stay_sound {start : Db} {calls : List RedeemCall} (hids : (start.coupons.map (·.id)).Nodup)
    (hstart : start.RedemptionsSound)
    (hcalls : ∀ done c, done ++ [c] <+: calls → c.KeyUsed repr (redeemRun repr start done)) {done : List RedeemCall}
    (hdone : done <+: calls) : (redeemRun repr start done).RedemptionsSound := by
  refine (Txn.prefixes_keep (I := fun db => (db.coupons.map (·.id)).Nodup ∧ db.RedemptionsSound)
    (fun db c hdb hc => ⟨?_, hdb.2.step hdb.1 hc⟩) ⟨hids, hstart⟩ hcalls hdone).2
  rw [RedeemCall.step_coupons]
  exact hdb.1

end

/-! ## One coupon, two spellings -/

/-- Ten per cent off, twice for each user. -/
def twiceTen : Coupon where
  id := 1
  code := "SAVE10"
  discountType := .percentage
  discountValue := 100000
  maxDiscount := none
  minSpend := none
  totalLimit := some 100
  perUserLimit := 2
  expiresAt := none
  isActive := true
  serviceIds := none
  categoryIds := none
  isTransferable := false
  ownerUserId := none

def twiceShop : Db := { coupons := [twiceTen] }

/-- The code as it is typed, for one order of 100 rupees. -/
def typed (code : String) : RedeemCall :=
  ⟨0, { code := code, userId := 7, orderId := "o1", orderTotal := ⟨10000, -2⟩ }, false⟩

def tenOff (key : String) : CouponRedemption := ⟨1, 7, "o1", 100000, key⟩

theorem twiceShop_sound : twiceShop.RedemptionsSound := by
  refine ⟨.nil, fun c hc n hn => ?_, fun c hc u => ?_⟩
  · obtain rfl := List.mem_singleton.mp hc
    cases hn
    decide
  · obtain rfl := List.mem_singleton.mp hc
    show (0 : Int) ≤ max 2 0
    decide

/-- The same spelling again is the same redemption. -/
theorem redemptions_stay_sound_of_repeat :
    (redeemRun id twiceShop [typed "SAVE10", typed "SAVE10"]).RedemptionsSound := by
  refine redemptions_stay_sound (by decide) twiceShop_sound (Txn.forall_steps _ fun n => ?_) List.prefix_rfl
  match n with
  | ⟨0, _⟩ => exact fun _ _ _ ⟨r, hr, _⟩ => (nomatch hr)
  | ⟨1, _⟩ =>
    have hrun : (redeemRun id twiceShop [typed "SAVE10"]).redemptions = [tenOff "coupon:o1:SAVE10"] := by
      decide +kernel
    refine fun _ _ _ _ => ⟨tenOff "coupon:o1:SAVE10", ?_, rfl⟩
    show _ ∈ (redeemRun id twiceShop [typed "SAVE10"]).redemptions
    rw [hrun]
    exact List.mem_singleton_self _

/-- Another spelling is another redemption for the order. -/
theorem redeemed_twice_for_an_order :
    (redeemRun id twiceShop [typed "SAVE10", typed "save10"]).redemptions =
      [tenOff "coupon:o1:SAVE10", tenOff "coupon:o1:save10"] ∧
    ¬ (redeemRun id twiceShop [typed "SAVE10", typed "save10"]).RedemptionsSound := by
  have hrun : (redeemRun id twiceShop [typed "SAVE10", typed "save10"]).redemptions =
      [tenOff "coupon:o1:SAVE10", tenOff "coupon:o1:save10"] := by decide +kernel
  refine ⟨hrun, fun h => ?_⟩
  have honce := h.once
  rw [hrun, List.pairwise_pair] at honce
  exact honce ⟨rfl, rfl⟩

end Falaron.Core
