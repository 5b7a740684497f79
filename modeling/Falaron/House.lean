/-
The whole house on one database: calls of the order engine and of the payment
service, visitors on referral links, what else moves money, and what else
changes the tables, in any order.

Each of the four runs that the books are proved for knows one of these
parties, and what it allows the others. A run of the house is each of the
four: a party's calls do to the others' tables what they allow.
-/
import Falaron.OrderCommission
import Falaron.OrderPostings
import Falaron.PaymentPostings

namespace Falaron

/-- A credit or debit that is about no order, no payment and no commission:
a bonus, a payout, a correction. -/
structure WalletCall.Sundry (c : WalletCall) : Prop where
  foreign : c.Foreign
  reference : c.posting.referenceType ≠ .some "payment" ∧ c.posting.referenceType ≠ .some "referral"
  payment : c.key.paymentRef = .none
  commission : (∀ p, c.key ≠ .reford p) ∧ ∀ u, c.key ≠ .refdep u

/-- Whatever else differs, money, orders and payments are the same, and who was referred stays so. -/
structure SameTrade (a b : Db) : Prop extends SameBuyers a b where
  payments : b.payments = a.payments

/-- The tables after any run of the house whose order calls meet `okOrder` and
whose payment calls meet `okPayment`. -/
inductive HouseRun (okOrder : Db → OrderCall → Prop) (okPayment : Db → PaymentCall → Prop) (db₀ : Db) : Db → Prop
  | start : HouseRun okOrder okPayment db₀ db₀
  | order {db caught} (c : OrderCall) : HouseRun okOrder okPayment db₀ db →
      (∀ e, caught e = true → e.userFacing = true) → okOrder db c →
      HouseRun okOrder okPayment db₀ (c.prog.commit caught db)
  | payment {db caught} (c : PaymentCall) : HouseRun okOrder okPayment db₀ db →
      (∀ e, caught e = true → e.isDeposit = true) → okPayment db c →
      HouseRun okOrder okPayment db₀ (c.prog.commit caught db)
  | hit {db visitor} (now : Time) (code : String) (caught : Err → Bool) : HouseRun okOrder okPayment db₀ db →
      db.users visitor.telegramId = .some visitor →
      HouseRun okOrder okPayment db₀ ((recordStartHit now code visitor).commit caught db)
  | wallet {db} (c : WalletCall) : HouseRun okOrder okPayment db₀ db → c.Sundry →
      HouseRun okOrder okPayment db₀ (c.prog.commit (fun _ => false) db)
  | tables {db db'} : HouseRun okOrder okPayment db₀ db → SameTrade db db' → HouseRun okOrder okPayment db₀ db'

/-- A house on its first day. -/
structure Fresh (db : Db) : Prop extends Opening db where
  empty : ∀ u user, db.users u = .some user → user.cachedBalancePaise = 0
  keyed : db.Keyed
  payments : db.payments = []

theorem Fresh.noDeposits {db : Db} (h : Fresh db) : NoDeposits db where
  payments := h.payments
  entries := by simp [h.ledger]
  keyed := h.keyed
  commissions _ := by simp [depositCommissions, h.ledger]

theorem HouseRun.calls {okOrder : Db → OrderCall → Prop} {okPayment : Db → PaymentCall → Prop} {db₀ db : Db}
    {calls : List OrderCall} (h : HouseRun okOrder okPayment db₀ db) (hok : ∀ c ∈ calls, ∀ db, okOrder db c) :
    HouseRun okOrder okPayment db₀ (afterCalls db calls) := by
  induction calls generalizing db with
  | nil => exact h
  | cons c calls ih =>
    exact ih (.order c h (fun _ he => by cases he) (hok c (by simp) db)) fun c' hc' => hok c' (by simp [hc'])

theorem HouseRun.settlements {okOrder : Db → OrderCall → Prop} {db₀ db : Db} {calls : List PaymentCall}
    (h : HouseRun okOrder (fun _ _ => True) db₀ db) :
    HouseRun okOrder (fun _ _ => True) db₀ (afterPayments db calls) := by
  induction calls generalizing db with
  | nil => exact h
  | cons c calls ih => exact ih (.payment c h (fun _ he => by cases he) trivial)

/-! ## What a visitor changes -/

/-- An attribution is about no money. -/
theorem recordStartHit_sameTrade {db : Db} (hkeyed : db.Keyed) {visitor : User}
    (hrow : db.users visitor.telegramId = .some visitor) (now : Time) (code : String) (caught : Err → Bool) :
    SameTrade db ((recordStartHit now code visitor).commit caught db) := by
  have hwrites : (recordStartHit now code visitor).Writes fun w => w.Keeps fun d => d.payments = db.payments :=
    recordStartHit_writes (fun _ _ _ hd => hd) (fun _ _ hd => hd) _ _
  exact ⟨recordStartHit_sameBuyers hkeyed hrow now code caught, hwrites.commit (fun _ hw => hw) rfl caught⟩

theorem SameTrade.otherThanDeposits {a b : Db} (h : SameTrade a b) : OtherThanDeposits a b where
  payments := h.payments
  ledger := ⟨[], by rw [h.ledger, List.append_nil], by simp⟩
  keyed := h.keyed
  commissions _ := by rw [h.ledger]

/-! ## What postings are to the others -/

section

variable {a b : Db} {e : LedgerEntry} {c : WalletCall}

theorem Db.Keyed.posted (h : a.Keyed) (e : LedgerEntry) : (a.posted e).Keyed := h.sameHouse ((Db.SameHouse.refl a).posted e)

theorem Db.Keyed.of_users (h : a.Keyed) (hu : b.users = a.users) : b.Keyed := by
  intro u row hrow
  rw [hu] at hrow
  exact h u row hrow

/-- An entry about no payment, under no key of a deposit or of its commission. -/
theorem OtherThanDeposits.posted (hkeyed : a.Keyed) (href : e.paymentRef = .none)
    (hkey : e.idempotencyKey.paymentRef = .none) (hcommission : ∀ u, e.idempotencyKey ≠ .refdep u) :
    OtherThanDeposits a (a.posted e) where
  payments := rfl
  ledger := ⟨[e], rfl, fun e' he' => List.mem_singleton.mp he' ▸ ⟨href, hkey⟩⟩
  keyed := hkeyed.posted e
  commissions u := by
    rw [Db.posted_ledger, depositCommissions_append]
    simp [depositCommissions, hcommission u]

/-- A posted entry is about what its call is about. -/
theorem Posts.referenceType {p : Posting} {t : EntryType} {key : Key} {draft : User → Except Err Draft}
    (h : Posts a p t key draft e) : e.referenceType = p.referenceType ∧ e.referenceId = p.referenceId := by
  obtain ⟨_, _, _, _, rfl, -⟩ := h.drafted
  exact ⟨rfl, rfl⟩

theorem Posts.entryType {p : Posting} {t : EntryType} {key : Key} {draft : User → Except Err Draft}
    (h : Posts a p t key draft e) : e.entryType = t := by
  obtain ⟨_, _, _, _, rfl, -⟩ := h.drafted
  rfl

theorem LedgerEntry.paymentRef_none (h : e.referenceType ≠ .some "payment") : e.paymentRef = .none := if_neg h

/-- A posting for an order is about no deposit. -/
theorem WalletCall.OfOrders.other (hc : c.OfOrders) (hkeyed : a.Keyed)
    (he : Posts a c.posting c.entryType c.key c.draft e) : OtherThanDeposits a (a.posted e) := by
  have href := he.referenceType.1
  have hkey := he.entry_eq.2
  cases hc with
  | order htype _ horder =>
    rw [htype] at href
    refine .posted hkeyed (LedgerEntry.paymentRef_none (by simp [href])) ?_ fun u hu => ?_
    · rw [hkey]
      cases hk : c.key with
      | deposit => simp [hk, Key.orderRef] at horder
      | _ => rfl
    · rw [← hkey, hu] at horder
      cases horder
  | commission htype =>
    have href' : e.referenceType = .some "referral" := href.trans htype
    refine .posted hkeyed (LedgerEntry.paymentRef_none (by simp [href'])) ?_ fun u hu => ?_
    · rw [hkey]
      rfl
    · rw [hkey] at hu
      cases hu

/-- A posting for a deposit is about no order. -/
theorem WalletCall.OfPayments.foreign (hc : c.OfPayments) : c.Foreign ∧ ∀ p, c.key ≠ .reford p := by
  cases hc with
  | deposit p => exact ⟨⟨by simp [Payment.deposit], rfl⟩, fun _ hk => by cases hk⟩
  | commission htype => exact ⟨⟨by simp [htype], rfl⟩, fun _ hk => by cases hk⟩

theorem WalletCall.Sundry.other (hc : c.Sundry) (hkeyed : a.Keyed)
    (he : Posts a c.posting c.entryType c.key c.draft e) : OtherThanDeposits a (a.posted e) := by
  have hkey := he.entry_eq.2
  refine .posted hkeyed (LedgerEntry.paymentRef_none ?_) (hkey ▸ hc.payment) (hkey ▸ hc.commission.2)
  rw [he.referenceType.1]
  exact hc.reference.1

theorem PaymentsBeside.sameBuyers (h : PaymentsBeside a b) (hkeyed : a.Keyed) : SameBuyers a b := by
  refine ⟨⟨h.ledger, h.orders, h.records, fun u => ?_⟩, hkeyed.of_users h.users, fun u id hid => ?_⟩
  · rw [h.users]
    exact (SameMoney.refl a).users u
  · rwa [Db.referredBy, h.users]

theorem OrdersBeside.other (h : OrdersBeside a b) (hkeyed : a.Keyed) : OtherThanDeposits a b where
  payments := h.payments
  ledger := ⟨[], by rw [h.ledger, List.append_nil], by simp⟩
  keyed := hkeyed.of_users h.users
  commissions _ := by rw [h.ledger]

end

/-! ## A run of the house is each of the four runs -/

section

variable {okOrder : Db → OrderCall → Prop} {okPayment : Db → PaymentCall → Prop} {db₀ a b db : Db}

/-- What a payment call does, the runs of the order engine allow. -/
theorem CommissionRun.postings (h : CommissionRun okOrder db₀ a) (hkeyed : a.Keyed)
    (hp : Postings WalletCall.OfPayments PaymentsBeside a b) : CommissionRun okOrder db₀ b ∧ b.Keyed := by
  induction hp with
  | start => exact ⟨h, hkeyed⟩
  | @post b c e _ hc he ih =>
    refine ⟨?_, ih.2.posted e⟩
    have hcommit : c.prog.commit (fun _ => false) b = b.posted e := he.commit
    exact hcommit ▸ ih.1.wallet c hc.foreign.1 hc.foreign.2
  | beside _ hq ih => exact ⟨ih.1.tables (hq.sameBuyers ih.2), ih.2.of_users hq.users⟩

/-- What an order call does, the runs of the payment service allow. -/
theorem DepositRun.postings (h : DepositRun okPayment db₀ a) (hkeyed : a.Keyed)
    (hp : Postings WalletCall.OfOrders OrdersBeside a b) : DepositRun okPayment db₀ b ∧ b.Keyed := by
  induction hp with
  | start => exact ⟨h, hkeyed⟩
  | post _ hc he ih => exact ⟨ih.1.other (hc.other ih.2 he), ih.2.posted _⟩
  | beside _ hq ih => exact ⟨ih.1.other (hq.other ih.2), ih.2.of_users hq.users⟩

theorem HouseRun.keyed (h : HouseRun okOrder okPayment db₀ db) (hkeyed : db₀.Keyed) : db.Keyed := by
  induction h with
  | start => exact hkeyed
  | order c _ _ _ ih => exact ih.sameHouse (c.sameHouse _ _)
  | payment c _ _ _ ih => exact ih.sameHouse (c.routine.commit (fun _ hw => hw.keeps _) (.refl _) _)
  | hit now code caught _ hrow ih => exact (recordStartHit_sameTrade ih hrow now code caught).keyed
  | @wallet db c _ _ ih =>
    obtain ⟨r, he⟩ := c.commit_effect db
    generalize c.prog.commit (fun _ => false) db = db' at he
    cases he with
    | raised => exact ih
    | replayed => exact ih
    | posted => exact ih.posted _
  | tables _ hs _ => exact hs.keyed

theorem HouseRun.commissionRun (h : HouseRun okOrder okPayment db₀ db) (hkeyed : db₀.Keyed) :
    CommissionRun okOrder db₀ db := by
  induction h with
  | start => exact .start
  | order c _ hcaught hc ih => exact ih.call c hcaught hc
  | payment c hrun _ _ ih => exact (ih.postings (hrun.keyed hkeyed) (c.postings _ _)).1
  | hit now code caught hrun hrow ih =>
    exact ih.tables (recordStartHit_sameTrade (hrun.keyed hkeyed) hrow now code caught).toSameBuyers
  | wallet c _ hc ih => exact ih.wallet c hc.foreign hc.commission.1
  | tables _ hs ih => exact ih.tables hs.toSameBuyers

theorem CommissionRun.orderRun (h : CommissionRun okOrder db₀ db) : OrderRun okOrder db₀ db := by
  induction h with
  | start => exact .start
  | call c _ hcaught hc ih => exact ih.call c hcaught hc
  | wallet c _ hc _ ih => exact ih.wallet c hc
  | tables _ hs ih => exact ih.tables hs.toSameMoney

theorem HouseRun.depositRun (h : HouseRun okOrder okPayment db₀ db) (hkeyed : db₀.Keyed) :
    DepositRun okPayment db₀ db := by
  induction h with
  | start => exact .start
  | order c hrun _ _ ih => exact (ih.postings (hrun.keyed hkeyed) (c.postings _ _)).1
  | payment c _ hcaught hc ih => exact ih.call c hcaught hc
  | hit now code caught _ hrow ih => exact ih.hit now code caught hrow
  | @wallet db c hrun hc ih =>
    obtain ⟨r, he⟩ := c.commit_effect db
    generalize c.prog.commit (fun _ => false) db = db' at he
    cases he with
    | raised => exact ih
    | replayed => exact ih
    | posted hp => exact ih.other (hc.other (hrun.keyed hkeyed) hp)
  | tables _ hs ih => exact ih.other hs.otherThanDeposits

theorem HouseRun.paymentRun (h : HouseRun okOrder okPayment db₀ db) (hkeyed : db₀.Keyed) :
    ∃ held, PaymentRun (fun db _ c => okPayment db c) db₀ db held := by
  have hrun := h.depositRun hkeyed
  clear h
  induction hrun with
  | start => exact ⟨_, .start⟩
  | call c _ hcaught hc ih =>
    obtain ⟨held, ih⟩ := ih
    exact ⟨_, ih.call c hcaught hc⟩
  | @hit db visitor now code caught _ _ ih =>
    obtain ⟨held, ih⟩ := ih
    have hwrites : (recordStartHit now code visitor).Writes fun w =>
        w.Keeps fun d => d.payments = db.payments ∧ d.ledger = db.ledger :=
      recordStartHit_writes (fun _ _ _ hd => hd) (fun _ _ hd => hd) _ _
    obtain ⟨hpayments, hledger⟩ := hwrites.commit (fun _ hw => hw) ⟨rfl, rfl⟩ caught
    exact ⟨held, ih.other ⟨hpayments, [], by rw [hledger, List.append_nil], by simp⟩⟩
  | other _ ho ih =>
    obtain ⟨held, ih⟩ := ih
    exact ⟨held, ih.other ho.toOtherThanPayments⟩

end

/-- **A run of the house is a run of each party**, of which the others' calls
are the changes it allows: whatever the order engine and the payment service
do to each other's tables in between, what holds of their own runs holds of
the house. -/
theorem house_run_is_each_run {okOrder : Db → OrderCall → Prop} {okPayment : Db → PaymentCall → Prop} {db₀ db : Db}
    (hkeyed : db₀.Keyed) (h : HouseRun okOrder okPayment db₀ db) :
    OrderRun okOrder db₀ db ∧ CommissionRun okOrder db₀ db ∧ DepositRun okPayment db₀ db ∧
      ∃ held, PaymentRun (fun db _ c => okPayment db c) db₀ db held :=
  ⟨(h.commissionRun hkeyed).orderRun, h.commissionRun hkeyed, h.depositRun hkeyed, h.paymentRun hkeyed⟩

/-! ## A first day

The shop, with two customers who have nothing on their wallets yet; user 8 has
the code `FRIEND`.
-/

def market : Db where
  users := club.users
  referralCodes := club.referralCodes
  catalog := shop.catalog

theorem market_fresh : Fresh market where
  ledger := rfl
  orders := rfl
  records _ := rfl
  wallets u user hu := by
    simp only [market, club] at hu
    split at hu <;> cases hu
    exact ⟨rfl, le_refl (0 : Int)⟩
  empty u user hu := by
    simp only [market, club] at hu
    split at hu <;> cases hu
    rfl
  keyed := club_opening.keyed
  payments := rfl

/-- User 7 comes on the link of user 8, pays ₹500 in, and orders for ₹25, which is delivered. -/
def firstDay : Db :=
  afterCalls (afterPayments (followLink 0 market) [invoice "P", .webhook 1 "razorpay" (paidEvent "e1" "P" 50000)])
    [.place 10 "A" 7 (likesFor "a") (.taken "1"), completes "A", .place 20 "B" 7 (likesFor "b") .timedOut]

theorem firstDay_run : HouseRun (fun db c => ¬ c.Overruns db) (fun _ _ => True) market firstDay := by
  have hlink : HouseRun (fun db c => ¬ c.Overruns db) (fun _ _ => True) market (followLink 0 market) :=
    HouseRun.start.hit 5 "friend" (fun _ => false) (show market.users ({ telegramId := 7 } : User).telegramId = _ from rfl)
  exact hlink.settlements.calls (by simp [OrderCall.Overruns, completes])

/-- It is a day of the order engine, and one of the payment service. -/
theorem house_run_is_each_run_of_firstDay :
    OrderRun (fun db c => ¬ c.Overruns db) market firstDay ∧
      ∃ held, PaymentRun (fun _ _ _ => True) market firstDay held := by
  obtain ⟨horders, -, -, hpayments⟩ := house_run_is_each_run market_fresh.keyed firstDay_run
  exact ⟨horders, hpayments⟩

end Falaron
