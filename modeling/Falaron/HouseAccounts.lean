/-
The accounts of the house, added up over its tables.

Each entry of the ledger has a row that accounts for it, and each row accounts
for its own entries: an order for what was captured and paid back, an invoice
for its one credit. What is on a wallet is then the sum of the rows.
-/
import Falaron.HouseBooks

namespace Falaron

/-- What accounts for an entry of the ledger. -/
inductive Accounted (db : Db) (e : LedgerEntry) : Prop
  | order {o : Order} : o ∈ db.orders → e.orderRef = .some o.publicId → e.userId = o.userId → Accounted db e
  | deposit {p : Payment} : p ∈ db.payments → p.status = .paid → e.Settles p → Accounted db e
  | orderCommission {o : Order} : o ∈ db.orders → e.IsCommissionOn o →
      db.referredBy o.userId = .some e.userId → Accounted db e
  | depositCommission {p : Payment} : p ∈ db.payments → p.status = .paid → e.idempotencyKey = .refdep p.userId →
      e.amountPaise = p.amountPaise * referralDepositCommissionPercent / 100 → Accounted db e
  | sundry : e.cause = .sundry → Accounted db e

/-- What an order has cost when its money is there. -/
def Funds.cost (charge : Int) : Funds → Int
  | .captured r _ => charge - r
  | _ => 0

namespace Db

variable (db : Db)

/-- What an order has cost so far: what was captured, less what was paid back. -/
def costOf (o : Order) : Int :=
  -totalOf .capture (db.entriesFor o.publicId) - totalOf .credit (db.entriesFor o.publicId)

def spent (u : Int) : Int := ((db.orders.filter (·.userId == u)).map db.costOf).sum

def paidIn (u : Int) : Int := ((db.paidDeposits u).map (·.amountPaise)).sum

/-- What was posted on the user's wallet for one cause. -/
def postedFor (u : Int) (cause : Cause) : Int := Tally.inClass LedgerEntry.cause (·.amountPaise) (db.entriesOf u) cause

end Db

section

variable {db : Db} {e : LedgerEntry} {o : Order} {u : Int}

/-! ## Orders -/

/-- Reserves and releases are entries of nothing. -/
theorem History.still {es : List LedgerEntry} {a : Account} (h : History es a) :
    ∀ e ∈ es, e.entryType = .reserve ∨ e.entryType = .release → e.amountPaise = 0 := by
  induction h with
  | nil => exact fun e he => by cases he
  | @snoc es a e b _ hm _ _ ih =>
    intro e' he' ht
    rcases List.mem_append.mp he' with he' | he'
    · exact ih e' he' ht
    · obtain rfl := List.mem_singleton.mp he'
      have hheld := hm.held
      rcases ht with ht | ht
      · rw [ht] at hheld
        exact hheld.1
      · rw [ht] at hheld
        exact hheld.1

theorem Db.Books.still (hb : db.Books) (hp : db.Posters) (he : e ∈ db.ledger)
    (ht : e.entryType = .reserve ∨ e.entryType = .release) : e.amountPaise = 0 := by
  obtain ⟨user, hu⟩ := Option.isSome_iff_exists.mp (hp e he)
  obtain ⟨a, hkeeps⟩ := hb.keeps _ user hu
  exact hkeeps.history.still e (by simp [Db.entriesOf, he]) ht

/-- What an order has cost, by where its money is. -/
theorem Db.costOf_eq {f : Funds} (ht : Funds.Trace o.chargePaise (db.entriesFor o.publicId) f)
    (hc : 0 < o.chargePaise) : db.costOf o = f.cost o.chargePaise := by
  have htells := ht.tells (Int.le_of_lt hc)
  unfold Db.costOf
  generalize db.entriesFor o.publicId = es at htells
  cases f with
  | unheld =>
    simp only [Funds.Tells] at htells
    subst htells
    rfl
  | held =>
    obtain ⟨-, hcap, -, hcredit⟩ := htells
    rw [hcredit, totalOf, hcap]
    rfl
  | captured r b =>
    obtain ⟨⟨e, hcap, hamount⟩, hcredit, -⟩ := htells
    rw [hcredit, totalOf, hcap]
    simp [hamount, Funds.cost]
  | released =>
    obtain ⟨hcap, -, hcredit⟩ := htells
    rw [hcredit, totalOf, hcap]
    rfl

/-- What an order has cost and what it holds is never more than its charge. -/
theorem OrderBooks.cost_bounds {strict : Prop} (hb : OrderBooks strict .none db) (ho : o ∈ db.orders) :
    0 ≤ db.costOf o ∧ db.costOf o + db.heldOf o.userId o ≤ o.chargePaise := by
  obtain ⟨f, ht, -⟩ := hb.funds o ho
  have hc := hb.charges o ho
  obtain ⟨-, h0, hle⟩ := ht.refunded_eq (Int.le_of_lt hc)
  rw [Db.costOf_eq ht hc, Db.heldOf_eq ht hc]
  cases f with
  | captured r b =>
    simp only [Funds.refunded, Funds.hold, Funds.cost] at *
    omega
  | _ =>
    simp only [Funds.hold, Funds.cost]
    omega

/-- The entries of an order add up to what it has cost. -/
theorem OrderBooks.sum_entriesFor {strict : Prop} (hob : OrderBooks strict .none db) (hb : db.Books) (hp : db.Posters)
    (publicId : String) : ((db.entriesFor publicId).map (·.amountPaise)).sum =
      totalOf .capture (db.entriesFor publicId) + totalOf .credit (db.entriesFor publicId) := by
  have htypes : ∀ e ∈ db.entriesFor publicId, e.entryType ∈ [EntryType.reserve, .release, .capture, .credit] := by
    intro e he
    obtain ⟨hm, href⟩ := List.mem_filter.mp he
    have hsome : e.orderRef.isSome := by rw [eq_of_beq href]; rfl
    rw [(hob.keys e hm).2 hsome]
    cases e.idempotencyKey <;> simp [Key.entryType]
  have hstill (t : EntryType) (ht : t = .reserve ∨ t = .release) : totalOf t (db.entriesFor publicId) = 0 := by
    refine List.sum_eq_zero fun x hx => ?_
    obtain ⟨e, he, rfl⟩ := List.mem_map.mp hx
    obtain ⟨hm, htype⟩ := List.mem_filter.mp he
    exact hb.still hp (List.mem_filter.mp hm).1 (eq_of_beq htype ▸ ht)
  have hsum := Tally.sum_classes (fun e : LedgerEntry => e.amountPaise) [EntryType.reserve, .release, .capture, .credit]
    (by decide) htypes
  have hclass (t : EntryType) : Tally.inClass LedgerEntry.entryType (fun e : LedgerEntry => e.amountPaise)
      (db.entriesFor publicId) t = totalOf t (db.entriesFor publicId) := rfl
  rw [hsum]
  simp only [List.map_cons, List.map_nil, List.sum_cons, List.sum_nil, hclass, hstill _ (.inl rfl), hstill _ (.inr rfl)]
  omega

/-- What was posted for a user's orders is what they have cost. -/
theorem OrderBooks.postedFor_order {strict : Prop} (hob : OrderBooks strict .none db) (hb : db.Books) (hp : db.Posters)
    (hnamed : ∀ e ∈ db.ledger, e.Named) (u : Int) : db.postedFor u .order = -db.spent u := by
  let own := db.orders.filter (·.userId == u)
  have hids : (own.map fun o => some o.publicId).Nodup := by
    have hnodup : (own.map (·.publicId)).Nodup := (List.filter_sublist.map _).nodup hob.ids
    have hmap := hnodup.map (Option.some_injective String)
    rwa [List.map_map] at hmap
  have howner {e : LedgerEntry} {o : Order} (he : e ∈ db.ledger) (ho : o ∈ db.orders)
      (href : e.orderRef = .some o.publicId) : e.userId = o.userId := by
    obtain ⟨o', ho', hid, huser⟩ := hob.known e he _ href
    rw [huser, List.inj_on_of_nodup_map hob.ids ho' ho hid]
  have hmem : ∀ e ∈ (db.entriesOf u).filter (fun e => e.cause = .order),
      e.orderRef ∈ own.map fun o => some o.publicId := by
    intro e he
    obtain ⟨he, hcause⟩ := List.mem_filter.mp he
    obtain ⟨hm, huser⟩ := List.mem_filter.mp he
    obtain ⟨pid, hpid⟩ := Option.isSome_iff_exists.mp ((hnamed e hm).order (of_decide_eq_true hcause))
    obtain ⟨o, ho, rfl, hown⟩ := hob.known e hm pid hpid
    refine List.mem_map.mpr ⟨o, List.mem_filter.mpr ⟨ho, ?_⟩, hpid.symm⟩
    rw [← hown]
    exact huser
  have hclass : ∀ o ∈ own, Tally.inClass LedgerEntry.orderRef (fun e : LedgerEntry => e.amountPaise)
      ((db.entriesOf u).filter fun e => e.cause = .order) (some o.publicId) = -db.costOf o := by
    intro o ho
    obtain ⟨hm, huser⟩ := List.mem_filter.mp ho
    have hsame : ((db.entriesOf u).filter fun e => e.cause = .order).filter (fun e => e.orderRef = some o.publicId) =
        db.entriesFor o.publicId := by
      rw [Db.entriesOf, Db.entriesFor, List.filter_filter, List.filter_filter]
      refine List.filter_congr fun e he => ?_
      by_cases href : e.orderRef = some o.publicId
      · simp [href, LedgerEntry.cause_of_orderRef href, howner he hm href, eq_of_beq huser]
      · simp [href]
    rw [Tally.inClass, hsame, hob.sum_entriesFor hb hp, Db.costOf]
    omega
  rw [Db.postedFor, Tally.inClass, Tally.sum_classes (fun e : LedgerEntry => e.amountPaise) _ hids hmem, List.map_map,
    Db.spent, List.sum_neg, List.map_map]
  exact congrArg List.sum (List.map_congr_left hclass)

/-! ## Deposits -/

/-- An entry about a payment is the credit that settled it. -/
theorem PaymentBooks.entry {pid : String} (hb : PaymentBooks True .none db) (he : e ∈ db.ledger)
    (hpid : e.paymentRef = .some pid) :
    ∃ p ∈ db.payments, p.publicId = pid ∧ p.status = .paid ∧ e.Settles p ∧ db.depositCredits pid = [e] := by
  obtain ⟨p, hp, rfl⟩ := hb.known e he pid hpid
  have hcred : e ∈ db.depositCredits p.publicId :=
    Db.mem_depositCredits.mpr ⟨he, (hb.refs e he).2 (by rw [hpid]; rfl), hpid⟩
  cases hb.settled p hp with
  | unpaid hnil _ =>
    rw [hnil] at hcred
    cases hcred
  | credited hone hsettles hpaid =>
    rw [hone] at hcred
    obtain rfl := List.mem_singleton.mp hcred
    exact ⟨p, hp, rfl, hpaid ⟨trivial, nofun⟩, hsettles, hone⟩

/-- What was posted for a user's payments is what he has paid in. -/
theorem PaymentBooks.postedFor_payment (hb : PaymentBooks True .none db) (hnamed : ∀ e ∈ db.ledger, e.Named) (u : Int) :
    db.postedFor u .payment = db.paidIn u := by
  have hids : ((db.paidDeposits u).map fun p => some p.publicId).Nodup := by
    have hnodup : ((db.paidDeposits u).map (·.publicId)).Nodup := (List.filter_sublist.map _).nodup hb.ids
    have hmap := hnodup.map (Option.some_injective String)
    rwa [List.map_map] at hmap
  have hmem : ∀ e ∈ (db.entriesOf u).filter (fun e => e.cause = .payment),
      e.paymentRef ∈ (db.paidDeposits u).map fun p => some p.publicId := by
    intro e he
    obtain ⟨he, hcause⟩ := List.mem_filter.mp he
    obtain ⟨hm, huser⟩ := List.mem_filter.mp he
    obtain ⟨pid, hpid⟩ := Option.isSome_iff_exists.mp ((hnamed e hm).payment (of_decide_eq_true hcause))
    obtain ⟨p, hp, rfl, hpaid, hsettles, -⟩ := hb.entry hm hpid
    refine List.mem_map.mpr ⟨p, List.mem_filter.mpr ⟨hp, ?_⟩, hpid.symm⟩
    simp [← hsettles.owner, eq_of_beq huser, hpaid]
  have hclass : ∀ p ∈ db.paidDeposits u, Tally.inClass LedgerEntry.paymentRef (fun e : LedgerEntry => e.amountPaise)
      ((db.entriesOf u).filter fun e => e.cause = .payment) (some p.publicId) = p.amountPaise := by
    intro p hp
    obtain ⟨hm, hpaid⟩ := List.mem_filter.mp hp
    simp only [Bool.and_eq_true, beq_iff_eq] at hpaid
    obtain ⟨e, hone, hsettles⟩ := (hb.paid_iff hm).mp hpaid.2
    have hsame : ((db.entriesOf u).filter fun e => e.cause = .payment).filter
        (fun e => e.paymentRef = some p.publicId) = db.depositCredits p.publicId := by
      rw [Db.entriesOf, Db.depositCredits, List.filter_filter, List.filter_filter]
      refine List.filter_congr fun e' he' => ?_
      by_cases href : e'.paymentRef = some p.publicId
      · obtain ⟨p', hp', hid, -, hsettles', -⟩ := hb.entry he' href
        obtain rfl := List.inj_on_of_nodup_map hb.ids hp' hm hid
        have htype := (hb.refs e' he').2 (by rw [href]; rfl)
        simp [href, LedgerEntry.cause_of_paymentRef href, htype, hsettles'.owner, hpaid.1]
      · simp [href]
    rw [Tally.inClass, hsame, hone]
    simpa using hsettles.amount
  rw [Db.postedFor, Tally.inClass, Tally.sum_classes (fun e : LedgerEntry => e.amountPaise) _ hids hmem, List.map_map,
    Db.paidIn]
  exact congrArg List.sum (List.map_congr_left hclass)

/-! ## Commissions -/

/-- What was posted for a user's referrals is what the referral page shows as earned. -/
theorem postedFor_referral (hnamed : ∀ e ∈ db.ledger, e.Named) (u : Int) :
    db.postedFor u .referral = db.referralEarnings u := by
  rw [Db.postedFor, Tally.inClass, Db.referralEarnings, Db.entriesOf, List.filter_filter]
  refine congrArg (fun l : List LedgerEntry => (l.map (·.amountPaise)).sum) (List.filter_congr fun e he => ?_)
  by_cases href : e.referenceType = .some "referral"
  · have hcause := LedgerEntry.cause_referral href
    simp [hcause, href, ((hnamed e he).referral hcause).1]
  · have hcause : e.cause ≠ .referral := by
      unfold LedgerEntry.cause
      split
      · decide
      split
      · decide
      decide
    simp [hcause, href]

end

/-! ## The statement of account -/

section

variable {okOrder : Db → OrderCall → Prop} {okPayment : Db → PaymentCall → Prop} {db₀ db : Db}

/-- What every run of the house keeps. -/
structure HouseState (strict : Prop) (db : Db) : Prop where
  orders : OrderBooks strict .none db
  payments : PaymentBooks True .none db
  books : db.Books
  posters : db.Posters
  named : ∀ e ∈ db.ledger, e.Named

theorem HouseRun.state {strict : Prop} (hok : strict → ∀ db c, okOrder db c → ¬ c.Overruns db) (h₀ : Fresh db₀)
    (h : HouseRun okOrder okPayment db₀ db) : HouseState strict db where
  orders := ((h.commissionRun h₀.keyed).orderRun.sound h₀.toOpening hok).1
  payments :=
    have hdeposits : DepositState False db := (h.depositRun h₀.keyed).state (fun hf => hf.elim) h₀.noDeposits
    hdeposits.books
  books := (h.books h₀).1
  posters := (h.books h₀).2
  named := h.named h₀

theorem HouseState.balance {strict : Prop} (h : HouseState strict db) {u : Int} {user : User}
    (hu : db.users u = .some user) : user.cachedBalancePaise =
      db.paidIn u - db.spent u + db.referralEarnings u + db.postedFor u .sundry := by
  obtain ⟨a, hkeeps⟩ := h.books.keeps u user hu
  have hall : ∀ e ∈ db.entriesOf u, e.cause ∈ [Cause.payment, .order, .referral, .sundry] :=
    fun e _ => by cases e.cause <;> decide
  have hcauses := Tally.sum_classes (fun e : LedgerEntry => e.amountPaise) [Cause.payment, .order, .referral, .sundry]
    (by decide) hall
  have hclass (c : Cause) : Tally.inClass LedgerEntry.cause (fun e : LedgerEntry => e.amountPaise) (db.entriesOf u) c =
      db.postedFor u c := rfl
  rw [hkeeps.shows.balance, hkeeps.history.balance, hcauses]
  simp only [List.map_cons, List.map_nil, List.sum_cons, List.sum_nil, hclass,
    h.payments.postedFor_payment h.named, h.orders.postedFor_order h.books h.posters h.named,
    postedFor_referral h.named]
  omega

end

/-- **The statement of account**: in every state of every run of the house,
what is on a wallet is what was paid in by invoices that are paid, less what
the user's orders have cost, plus what was earned by referrals, plus what was
posted for none of these. And what an order has cost is never more than its
charge. -/
theorem statement_of_account {okOrder : Db → OrderCall → Prop} {okPayment : Db → PaymentCall → Prop} {db₀ db : Db}
    (h₀ : Fresh db₀) (h : HouseRun okOrder okPayment db₀ db) :
    (∀ u user, db.users u = .some user → user.cachedBalancePaise =
      db.paidIn u - db.spent u + db.referralEarnings u + db.postedFor u .sundry) ∧
    ∀ o ∈ db.orders, 0 ≤ db.costOf o ∧ db.costOf o ≤ o.chargePaise := by
  have hstate : HouseState False db := h.state (fun hf => hf.elim) h₀
  refine ⟨fun u user hu => hstate.balance hu, fun o ho => ?_⟩
  have hbounds := hstate.orders.cost_bounds ho
  have hheld := (hstate.orders.heldOf_nonneg ho o.userId)
  omega

/-- What came in and went out on the first day. -/
theorem statement_of_account_of_firstDay :
    firstDay.paidIn 7 = 50000 ∧ firstDay.spent 7 = 2500 ∧ firstDay.referralEarnings 8 = 2700 ∧
    ∀ user, firstDay.users 7 = .some user → user.cachedBalancePaise =
      firstDay.paidIn 7 - firstDay.spent 7 + firstDay.referralEarnings 7 + firstDay.postedFor 7 .sundry := by
  have hday : firstDay.paidIn 7 = 50000 ∧ firstDay.spent 7 = 2500 ∧ firstDay.referralEarnings 8 = 2700 := by
    decide +kernel
  exact ⟨hday.1, hday.2.1, hday.2.2, (statement_of_account market_fresh firstDay_run).1 7⟩

/-- **Nobody orders on credit**: in every run in which no call releases a
charge that was captured already, what is free on a wallet is what is left of
it once the charges of the user's open orders are held back, and it is never
negative: orders, delivered and open, are covered by what came in. -/
theorem orders_are_covered {okPayment : Db → PaymentCall → Prop} {db₀ db : Db} (h₀ : Fresh db₀)
    (h : HouseRun (fun db c => ¬ c.Overruns db) okPayment db₀ db) {u : Int} {user : User}
    (hu : db.users u = .some user) :
    user.availablePaise =
      db.paidIn u + db.referralEarnings u + db.postedFor u .sundry - db.spent u - db.heldSum u ∧
    db.spent u + db.heldSum u ≤ db.paidIn u + db.referralEarnings u + db.postedFor u .sundry := by
  have hstate : HouseState True db := h.state (fun _ _ _ hc => hc) h₀
  have hbalance := hstate.balance hu
  have hreserve := hstate.orders.reserve trivial u user hu
  have hcovered := hstate.orders.covered u user hu
  rw [User.availablePaise]
  omega

/-- The second order of the first day is still open. -/
theorem orders_are_covered_on_firstDay : firstDay.heldSum 7 = 2500 ∧
    ∀ user, firstDay.users 7 = .some user → user.availablePaise =
      firstDay.paidIn 7 + firstDay.referralEarnings 7 + firstDay.postedFor 7 .sundry - firstDay.spent 7 - 2500 := by
  have hheld : firstDay.heldSum 7 = 2500 := by decide +kernel
  exact ⟨hheld, fun user hu => hheld ▸ (orders_are_covered market_fresh firstDay_run hu).1⟩

/-! ## What accounts for the entries -/

theorem HouseRun.accounted {okOrder : Db → OrderCall → Prop} {okPayment : Db → PaymentCall → Prop} {db₀ db : Db}
    (h₀ : Fresh db₀) (h : HouseRun okOrder okPayment db₀ db) : ∀ e ∈ db.ledger, Accounted db e := by
  intro e he
  have hstate : HouseState False db := h.state (fun hf => hf.elim) h₀
  have hnamed := hstate.named e he
  cases hcause : e.cause with
  | order =>
    obtain ⟨pid, hpid⟩ := Option.isSome_iff_exists.mp (hnamed.order hcause)
    obtain ⟨o, ho, rfl, hown⟩ := hstate.orders.known e he pid hpid
    exact .order ho hpid hown
  | payment =>
    obtain ⟨pid, hpid⟩ := Option.isSome_iff_exists.mp (hnamed.payment hcause)
    obtain ⟨p, hp, -, hpaid, hsettles, -⟩ := hstate.payments.entry he hpid
    exact .deposit hp hpaid hsettles
  | referral =>
    obtain ⟨-, ⟨id, hkey⟩ | ⟨u, hkey⟩⟩ := hnamed.referral hcause
    · have hcommissions : CommissionState False db :=
        (h.commissionRun h₀.keyed).state (fun hf => hf.elim) h₀.toOpening h₀.keyed
      have hmem : e ∈ db.commissions := by
        simp [Db.commissions, he, LedgerEntry.commissionOrder, hkey]
      obtain ⟨o, ho, hon, href⟩ := hcommissions.commissions.known e hmem
      exact .orderCommission ho hon href
    · have hdeposits : DepositState False db := (h.depositRun h₀.keyed).state (fun hf => hf.elim) h₀.noDeposits
      have hmem : e ∈ depositCommissions u db.ledger := by simp [depositCommissions, he, hkey]
      obtain ⟨d, hd, hshare, -⟩ := hdeposits.commissions.shares u e hmem
      obtain ⟨p, hp, hown, hpaid, -, -, hamount⟩ := hdeposits.invoice hd hshare
      exact .depositCommission hp hpaid (hown ▸ hkey) hamount
  | sundry => exact .sundry hcause

/-- **Every entry is accounted for**: in every state of every run of the house,
an entry of the ledger is about an order of its user, or is the one credit of
a paid invoice, or is the share of such an order or invoice, or was posted
for none of these. -/
theorem every_entry_accounted_for {okOrder : Db → OrderCall → Prop} {okPayment : Db → PaymentCall → Prop} {db₀ db : Db}
    (h₀ : Fresh db₀) (h : HouseRun okOrder okPayment db₀ db) : ∀ e ∈ db.ledger, Accounted db e :=
  h.accounted h₀

theorem every_entry_accounted_for_on_firstDay :
    firstDay.ledger.length = 6 ∧ ∀ e ∈ firstDay.ledger, Accounted firstDay e :=
  ⟨by decide +kernel, every_entry_accounted_for market_fresh firstDay_run⟩

end Falaron
