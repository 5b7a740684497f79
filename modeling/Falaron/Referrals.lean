/-
Referrals: who referred whom, and the commissions: a share of a referred
user's first orders and of the first deposit, credited to who referred them.
-/
import Falaron.Wallet

namespace Falaron

def referralOrderCommissionPercent : Int := 8
def referralDepositCommissionPercent : Int := 5
def referralOrderCap : Nat := 3

/-! ## Attribution -/

/-- `user_by_referral_code` -/
def userByReferralCode (code : String) : M (Option User) :=
  let normalized := Text.upper (Text.strip code)
  if normalized = "" then pure .none
  else .query fun db => (db.referralCodes normalized).bind db.users

/-- Who comes with a code for the first time was referred by whose code it is. -/
def setReferrer (visitor : User) : Option User → M Unit
  | .some referrer =>
    if visitor.referredBy.isNone then .write (Stmt.setReferredBy visitor.telegramId referrer.telegramId) else pure ()
  | .none => pure ()

/-- Attribute a /start deep-link. Returns the referrer if valid. -/
def recordStartHit (now : Time) (code : String) (visitor : User) : M (Option User) := do
  let code := Text.upper (Text.strip code)
  if code = "" then pure .none
  else
    let referrer ← userByReferralCode code
    if referrer.any (·.telegramId == visitor.telegramId) then pure .none
    else
      let isNew := visitor.referredBy.isNone && referrer.isSome
      setReferrer visitor referrer
      .write (Stmt.insertReferralClick ⟨Text.clip 16 code, referrer.map (·.telegramId), visitor.telegramId, isNew, now⟩)
      flush
      pure referrer

/-! ## Commissions -/

/-- `_commission_paise`, on whole percentages -/
def commissionPaise (amount percent : Int) : Int :=
  if amount ≤ 0 || percent ≤ 0 then 0 else amount * percent / 100

theorem commissionPaise_eq {amount percent : Int} (h : 0 < commissionPaise amount percent) :
    commissionPaise amount percent = amount * percent / 100 := by
  unfold commissionPaise at h ⊢
  split at h
  · exact absurd h (by decide)
  · next hc => rw [if_neg hc]

/-- Who is credited for `buyer`: the referrer, if it is someone else who exists. -/
def referrerOf (buyer : User) : M (Option User) := do
  match buyer.referredBy with
  | .none => pure .none
  | .some id =>
    let referrer ← .query (·.users id)
    pure (referrer.filter (·.telegramId ≠ buyer.telegramId))

/-- Credits a commission, if there is anything to credit. -/
def creditCommission (referrer : Option User) (amount : Int) (reason : String) (key : Key)
    (referenceId : String) : M Unit := do
  match referrer with
  | .none => pure ()
  | .some referrer =>
    if amount ≤ 0 then pure ()
    else
      let _ ← credit ⟨referrer.telegramId, amount, reason, .some "referral", .some referenceId⟩ (.some key)

/-- 8% of a referred user's first 3 completed order amounts. -/
def creditOrderCommission (order : Order) : M Unit := do
  if order.status ≠ .completed || order.chargePaise ≤ 0 then pure ()
  else
    match (← .query (·.users order.userId)).filter (·.referredBy.isSome) with
    | .none => pure ()
    | .some buyer =>
      let completedIds ← .query fun db =>
        (db.orders.filter fun o => o.userId == buyer.telegramId && o.status == .completed).map (·.publicId)
      if order.publicId ∉ completedIds.take referralOrderCap then pure ()
      else
        creditCommission (← referrerOf buyer) (commissionPaise order.chargePaise referralOrderCommissionPercent)
          s!"Referral 8% {order.publicId}" (.reford order.publicId) order.publicId

/-- 5% of a referred user's first deposit. The count sees what the session
has flushed: not the deposit being settled. -/
def creditDepositCommission (buyer : User) (payment : Payment) : M Unit := do
  if buyer.referredBy.isNone || payment.amountPaise ≤ 0 then pure ()
  else
    let paidCount ← .query fun db =>
      (db.payments.filter fun p => p.userId == buyer.telegramId && p.status == .paid).length
    if 1 < paidCount then pure ()
    else
      creditCommission (← referrerOf buyer) (commissionPaise payment.amountPaise referralDepositCommissionPercent)
        s!"Referral 5% first deposit {payment.publicId}" (.refdep buyer.telegramId) payment.publicId

/-! ## Rules: a commission is one credit, or nothing -/

section

variable {s : Session} {Q : Unit → Session → Prop} {E : Err → Session → Prop}

/-- Any credit of a commission under `key` will do. -/
def CreditsCommission (key : Key) (Q : Unit → Session → Prop) (E : Err → Session → Prop) (s : Session) : Prop :=
  ∀ p : Posting, 0 < p.amountPaise → p.referenceType = .some "referral" →
    (credit p (.some key)).wp (fun _ => Q ()) E s

/-- The commission on an order: nothing, or a credit of the share to the referrer. -/
theorem wp_creditOrderCommission_share {order : Order} (hskip : Q () s)
    (hcredit : ∀ buyer id referrer, s.db.users order.userId = .some buyer → buyer.referredBy = .some id →
      s.db.users id = .some referrer → referrer.telegramId ≠ buyer.telegramId →
      0 < commissionPaise order.chargePaise referralOrderCommissionPercent →
      order.publicId ∈ ((s.db.orders.filter fun o => o.userId == buyer.telegramId && o.status == .completed).map
        (·.publicId)).take referralOrderCap →
      (credit ⟨referrer.telegramId, commissionPaise order.chargePaise referralOrderCommissionPercent,
        s!"Referral 8% {order.publicId}", .some "referral", .some order.publicId⟩
        (.some (.reford order.publicId))).wp (fun _ => Q ()) E s) :
    (creditOrderCommission order).wp Q E s := by
  unfold creditOrderCommission
  split
  · exact hskip
  simp only [Txn.Prog.wp_bind, Txn.Prog.wp_query]
  split
  · exact hskip
  next buyer hbuyer =>
  obtain ⟨hrow, hreferred⟩ := Option.filter_eq_some_iff.mp hbuyer
  obtain ⟨id, hid⟩ := Option.isSome_iff_exists.mp hreferred
  simp only [Txn.Prog.wp_bind, Txn.Prog.wp_query]
  split
  · exact hskip
  next hcap =>
  simp only [Txn.Prog.wp_bind, referrerOf, hid, Txn.Prog.wp_query, Txn.Prog.wp_pure']
  unfold creditCommission
  split
  · exact hskip
  next referrer href =>
  obtain ⟨hreferrer, hother⟩ := Option.filter_eq_some_iff.mp href
  split
  · exact hskip
  next hpos =>
  simp only [Txn.Prog.wp_bind, Txn.Prog.wp_pure']
  exact hcredit buyer id referrer hrow hid hreferrer (by simpa using hother) (by omega) (not_not.mp hcap)

theorem wp_creditOrderCommission {order : Order} (hskip : Q () s)
    (hcredit : CreditsCommission (.reford order.publicId) Q E s) : (creditOrderCommission order).wp Q E s :=
  wp_creditOrderCommission_share hskip fun _ _ _ _ _ _ _ hpos _ => hcredit _ hpos rfl

/-- The commission on a deposit: nothing, or a credit of the share to the referrer. -/
theorem wp_creditDepositCommission_share {buyer : User} {payment : Payment} (hskip : Q () s)
    (hcredit : ∀ id referrer, buyer.referredBy = .some id → s.db.users id = .some referrer →
      referrer.telegramId ≠ buyer.telegramId → 0 < payment.amountPaise →
      0 < commissionPaise payment.amountPaise referralDepositCommissionPercent →
      (s.db.payments.filter fun p => p.userId == buyer.telegramId && p.status == .paid).length ≤ 1 →
      (credit ⟨referrer.telegramId, commissionPaise payment.amountPaise referralDepositCommissionPercent,
        s!"Referral 5% first deposit {payment.publicId}", .some "referral", .some payment.publicId⟩
        (.some (.refdep buyer.telegramId))).wp (fun _ => Q ()) E s) :
    (creditDepositCommission buyer payment).wp Q E s := by
  unfold creditDepositCommission
  split
  · exact hskip
  next hcond =>
  simp only [Bool.or_eq_true, decide_eq_true_eq, not_or, Bool.not_eq_true, Option.isNone_eq_false_iff] at hcond
  obtain ⟨id, hid⟩ := Option.isSome_iff_exists.mp hcond.1
  simp only [Txn.Prog.wp_bind, Txn.Prog.wp_query]
  split
  · exact hskip
  next hcount =>
  simp only [Txn.Prog.wp_bind, referrerOf, hid, Txn.Prog.wp_query, Txn.Prog.wp_pure']
  unfold creditCommission
  split
  · exact hskip
  next referrer href =>
  obtain ⟨hrow, hother⟩ := Option.filter_eq_some_iff.mp href
  split
  · exact hskip
  next hpos =>
  simp only [Txn.Prog.wp_bind, Txn.Prog.wp_pure']
  exact hcredit id referrer hid hrow (by simpa using hother) (by omega) (by omega) (by omega)

theorem wp_creditDepositCommission {buyer : User} {payment : Payment} (hskip : Q () s)
    (hcredit : CreditsCommission (.refdep buyer.telegramId) Q E s) :
    (creditDepositCommission buyer payment).wp Q E s :=
  wp_creditDepositCommission_share hskip fun _ _ _ _ _ _ hpos _ => hcredit _ hpos rfl

end

end Falaron
