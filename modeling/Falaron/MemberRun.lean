/-
The site over whole runs: requests of its members, calls of the order engine
and of the payment service, and what the operator changes, in any order.

What its members do is no trade, so the tables of the money go through a run
of the house (`SiteRun.houseRun`), and all that holds of the house holds of
the site.
-/
import Falaron.HouseAccounts
import Falaron.MemberSteps

namespace Falaron

open Relation (ReflTransGen)

/-- What the operator may change: roles, bans, partners, the catalog and the
settings, but no member, and nothing that members asked for. -/
structure Site.Operates (a b : Site) : Prop where
  trade : SameTrade a.db b.db
  codes : b.db.referralCodes = a.db.referralCodes
  rows : ∀ u, (b.db.users u).isSome = (a.db.users u).isSome
  members : b.members = a.members
  applications : b.applications = a.applications
  payouts : b.payouts = a.payouts

/-- The site after any run from `s₀`. -/
inductive SiteRun (env : SiteEnv) (okOrder : Db → OrderCall → Prop) (okPayment : Db → PaymentCall → Prop)
    (s₀ : Site) : Site → Prop
  | start : SiteRun env okOrder okPayment s₀ s₀
  | visit {s s'} (v : Visit) : SiteRun env okOrder okPayment s₀ s → v.prog env s = .ok ((), s') →
      SiteRun env okOrder okPayment s₀ s'
  | order {s caught} (c : OrderCall) : SiteRun env okOrder okPayment s₀ s →
      (∀ e, caught e = true → e.userFacing = true) → okOrder s.db c →
      SiteRun env okOrder okPayment s₀ { s with db := c.prog.commit caught s.db }
  | payment {s caught} (c : PaymentCall) : SiteRun env okOrder okPayment s₀ s →
      (∀ e, caught e = true → e.isDeposit = true) → okPayment s.db c →
      SiteRun env okOrder okPayment s₀ { s with db := c.prog.commit caught s.db }
  | operator {s s'} : SiteRun env okOrder okPayment s₀ s → s.Operates s' → SiteRun env okOrder okPayment s₀ s'

/-- A site nobody has been on yet. -/
structure Unvisited (s : Site) : Prop where
  users : ∀ u, s.db.users u = .none
  members : ∀ u, s.members u = .none
  codes : ∀ c, s.db.referralCodes c = .none
  ledger : s.db.ledger = []
  orders : s.db.orders = []
  records : ∀ k, s.db.records k = .none
  payments : s.db.payments = []
  applications : s.applications = []
  payouts : s.payouts = []

theorem Unvisited.fresh {s : Site} (h : Unvisited s) : Fresh s.db where
  ledger := h.ledger
  orders := h.orders
  records := h.records
  wallets u user hu := by simp [h.users u] at hu
  empty u user hu := by simp [h.users u] at hu
  keyed u row hu := by simp [h.users u] at hu
  payments := h.payments

/-! ## The calls of the wallet -/

/-- A key that is a text under a heading is used as it is. -/
theorem Key.orElse_headed (head tail : String) (d : Key) (h : head.toList ≠ []) :
    Key.orElse (.some (.text (head ++ tail))) d = .text (head ++ tail) := by
  unfold Key.orElse
  split
  · next heq =>
    have hchars := congrArg String.toList (Key.text.inj (Option.some.inj heq))
    rw [String.toList_append, String.toList_empty, List.append_eq_nil_iff] at hchars
    exact absurd hchars.1 h
  · next heq => exact (Option.some.inj heq).symm
  · next heq => cases heq

/-- Texts under headings that begin differently. -/
theorem headed_ne {head head' : String} (tail tail' : String) (h : head.toList.head? ≠ head'.toList.head?)
    (hne : head.toList ≠ []) (hne' : head'.toList ≠ []) : Key.text (head ++ tail) ≠ Key.text (head' ++ tail') := by
  intro he
  have hchars := congrArg (fun s : String => s.toList.head?) (Key.text.inj he)
  simp only [String.toList_append, List.head?_append_of_ne_nil _ hne, List.head?_append_of_ne_nil _ hne'] at hchars
  exact h hchars

section

variable {p q target amountPaise : Int} {reason publicId id : String}

theorem headed_injective {head tail tail' : String} (h : Key.text (head ++ tail) = Key.text (head ++ tail')) :
    tail.toList = tail'.toList := by
  have hchars := congrArg String.toList (Key.text.inj h)
  rw [String.toList_append, String.toList_append] at hchars
  exact List.append_cancel_left hchars

theorem welcomeKey_injective (h : welcomeKey p = welcomeKey q) : p = q := Text.int_injective (headed_injective h)

theorem payoutKey_injective (h : payoutKey publicId = payoutKey id) : publicId = id :=
  String.toList_inj.mp (headed_injective h)

theorem welcomeKey_ne_payoutKey : welcomeKey p ≠ payoutKey id :=
  headed_ne (toString p) id (by decide) (by decide) (by decide)

theorem welcomeKey_ne_adjustmentKey : welcomeKey p ≠ adjustmentKey id :=
  headed_ne (toString p) id (by decide) (by decide) (by decide)

theorem payoutKey_ne_adjustmentKey : payoutKey publicId ≠ adjustmentKey id :=
  headed_ne publicId id (by decide) (by decide) (by decide)

theorem credit_key {posting : Posting} (head tail : String) (h : head.toList ≠ []) :
    (WalletCall.credit posting (.some (.text (head ++ tail)))).key = .text (head ++ tail) :=
  Key.orElse_headed head tail (.credit posting.userId posting.reason posting.amountPaise) h

theorem debit_key {posting : Posting} (head tail : String) (h : head.toList ≠ []) :
    (WalletCall.debit posting (.some (.text (head ++ tail)))).key = .text (head ++ tail) :=
  Key.orElse_headed head tail (.debit posting.userId posting.reason posting.amountPaise) h

theorem welcomeCall_key : (welcomeCall p amountPaise).key = welcomeKey p :=
  credit_key "welcome:" (toString p) (by decide)

theorem payoutCall_key : (payoutCall p amountPaise publicId).key = payoutKey publicId :=
  debit_key "payout|" publicId (by decide)

theorem adjustCall_key : (adjustCall p target amountPaise reason publicId).key = adjustmentKey publicId := by
  unfold adjustCall
  dsimp only
  split
  · exact credit_key "admin-adj|" publicId (by decide)
  · exact debit_key "admin-adj|" publicId (by decide)

theorem adjustCall_posting : (adjustCall p target amountPaise reason publicId).posting =
    ⟨target, |amountPaise|, s!"Admin: {reason}", .some "admin", .some (toString p)⟩ := by
  unfold adjustCall
  dsimp only
  split
  · rfl
  · rfl

theorem WalletCall.sundry_of_text {c : WalletCall} {text : String} (hc : c.entryType = .credit ∨ c.entryType = .debit)
    (hkey : c.key = .text text) (horder : c.posting.referenceType ≠ .some "order")
    (href : c.posting.referenceType ≠ .some "payment" ∧ c.posting.referenceType ≠ .some "referral") : c.Sundry where
  foreign := by
    have hnone : c.key.orderRef = .none := by
      rw [hkey]
      rfl
    cases c with
    | credit => exact ⟨horder, hnone⟩
    | debit => exact ⟨horder, hnone⟩
    | reserve => simp [entryType] at hc
    | release => simp [entryType] at hc
    | capture => simp [entryType] at hc
  reference := href
  payment := by
    rw [hkey]
    rfl
  commission := by simp [hkey]

theorem welcomeCall_sundry : (welcomeCall p amountPaise).Sundry :=
  WalletCall.sundry_of_text (.inl rfl) welcomeCall_key (by simp [welcomeCall, WalletCall.posting])
    (by simp [welcomeCall, WalletCall.posting])

theorem payoutCall_sundry : (payoutCall p amountPaise publicId).Sundry :=
  WalletCall.sundry_of_text (.inr rfl) payoutCall_key (by simp [payoutCall, WalletCall.posting])
    (by simp [payoutCall, WalletCall.posting])

theorem adjustCall_entryType : (adjustCall p target amountPaise reason publicId).entryType = .credit ∨
    (adjustCall p target amountPaise reason publicId).entryType = .debit := by
  unfold adjustCall
  dsimp only
  split
  · exact .inl rfl
  · exact .inr rfl

theorem adjustCall_sundry : (adjustCall p target amountPaise reason publicId).Sundry :=
  WalletCall.sundry_of_text adjustCall_entryType adjustCall_key (by simp [adjustCall_posting]) (by simp [adjustCall_posting])

end

/-! ## The tables of the money go through a run of the house -/

/-- How a user's row goes on: as the same user with the same wallet, or as a new one. -/
def User.Continues (u : Int) : Option User → Option User → Prop
  | .some x, .some y => y.telegramId = x.telegramId ∧ y.cachedBalancePaise = x.cachedBalancePaise ∧
      y.cachedReservedPaise = x.cachedReservedPaise ∧ y.referredBy = x.referredBy
  | .none, .some y => y.telegramId = u ∧ y.cachedBalancePaise = 0 ∧ y.cachedReservedPaise = 0
  | .some _, .none => False
  | .none, .none => True

theorem User.Continues.refl (u : Int) (x : Option User) : Continues u x x := by
  cases x with
  | none => trivial
  | some x => exact ⟨rfl, rfl, rfl, rfl⟩

theorem User.Continues.map {f : User → User} (u : Int) (x : Option User)
    (hf : ∀ y, (f y).telegramId = y.telegramId ∧ (f y).cachedBalancePaise = y.cachedBalancePaise ∧
      (f y).cachedReservedPaise = y.cachedReservedPaise ∧ (f y).referredBy = y.referredBy) : Continues u x (x.map f) := by
  cases x with
  | none => trivial
  | some x => exact hf x

section

variable {a b : Db}

/-- What changes the rows of users so is no trade. -/
theorem SameTrade.of_continues (hkeyed : a.Keyed) (hl : b.ledger = a.ledger) (ho : b.orders = a.orders)
    (hr : b.records = a.records) (hp : b.payments = a.payments) (hu : ∀ u, User.Continues u (a.users u) (b.users u)) :
    SameTrade a b := by
  refine ⟨⟨⟨hl, ho, hr, fun u => ?_⟩, fun u row hrow => ?_, fun u id hid => ?_⟩, hp⟩
  · have hrow := hu u
    cases hx : a.users u <;> cases hy : b.users u <;> rw [hx, hy] at hrow
    · trivial
    · exact ⟨hrow.2.2, hrow.2.1⟩
    · exact hrow
    · exact ⟨hrow.2.1, hrow.2.2.1⟩
  · have hsame := hu u
    rw [hrow] at hsame
    cases hx : a.users u with
    | none =>
      rw [hx] at hsame
      exact hsame.1
    | some x =>
      rw [hx] at hsame
      exact hsame.1.trans (hkeyed u x hx)
  · have hsame := hu u
    cases hx : a.users u with
    | none => simp [Db.referredBy, hx] at hid
    | some x =>
      cases hy : b.users u with
      | none =>
        rw [hx, hy] at hsame
        exact hsame.elim
      | some y =>
        rw [hx, hy] at hsame
        simpa [Db.referredBy, hx, hy, hsame.2.2.2] using hid

theorem SameTrade.refl (hkeyed : a.Keyed) : SameTrade a a :=
  .of_continues hkeyed rfl rfl rfl rfl fun u => .refl u _

end

section

variable {env : SiteEnv} {okOrder : Db → OrderCall → Prop} {okPayment : Db → PaymentCall → Prop} {db₀ : Db}
  {p : Int} {s s' s₀ : Site} {f : User → User}

theorem WalletCall.Makes.commit {c : WalletCall} {db db' : Db} {e : LedgerEntry} (h : c.Makes db e db') :
    c.prog.commit (fun _ => false) db = db' := by
  rw [Txn.Prog.commit, h]
  rfl

theorem WalletCall.Makes.effect {c : WalletCall} {db db' : Db} {e : LedgerEntry} (h : c.Makes db e db') :
    db' = db ∧ db.findEntry c.key = .some e ∨
    db' = db.posted e ∧ Posts db c.posting c.entryType c.key c.draft e := by
  obtain ⟨r, db'', hr, he⟩ := c.run_effect db
  obtain ⟨rfl, hdb⟩ := Prod.mk.inj (h.symm.trans hr)
  obtain rfl : db' = db'' := congrArg (fun s : Session => s.db) hdb
  cases he with
  | replayed _ hfound => exact .inl ⟨rfl, hfound⟩
  | posted hp => exact .inr ⟨rfl, hp⟩

theorem Site.updateUser_continues (u : Int)
    (hf : ∀ y, (f y).telegramId = y.telegramId ∧ (f y).cachedBalancePaise = y.cachedBalancePaise ∧
      (f y).cachedReservedPaise = y.cachedReservedPaise ∧ (f y).referredBy = y.referredBy) (v : Int) :
    User.Continues v (s.db.users v) ((s.updateUser u f).db.users v) := by
  simp only [updateUser]
  split
  · exact User.Continues.map v _ hf
  · exact .refl v _

theorem Site.updateUser_sameTrade (hkeyed : s.db.Keyed) (u : Int)
    (hf : ∀ y, (f y).telegramId = y.telegramId ∧ (f y).cachedBalancePaise = y.cachedBalancePaise ∧
      (f y).cachedReservedPaise = y.cachedReservedPaise ∧ (f y).referredBy = y.referredBy) :
    SameTrade s.db (s.updateUser u f).db :=
  .of_continues hkeyed rfl rfl rfl rfl (s.updateUser_continues u hf)

theorem Site.partnered_sameTrade (hkeyed : s.db.Keyed) (user : User) (kind : String) :
    SameTrade s.db (s.partnered user kind).db := by
  unfold partnered
  dsimp only
  split
  · split
    · exact .of_continues hkeyed rfl rfl rfl rfl (Site.updateUser_continues _ fun _ => ⟨rfl, rfl, rfl, rfl⟩)
    · exact .of_continues hkeyed rfl rfl rfl rfl fun u => .refl u _
  split
  · split
    · exact .of_continues hkeyed rfl rfl rfl rfl (Site.updateUser_continues _ fun _ => ⟨rfl, rfl, rfl, rfl⟩)
    · exact .refl hkeyed
  · exact .refl hkeyed

/-- A step is a call of the wallet, a visit on a link, or no trade. -/
theorem Site.Step.houseRun (h : s.Step env p s') (hkeyed : db₀.Keyed) (hrun : HouseRun okOrder okPayment db₀ s.db) :
    HouseRun okOrder okPayment db₀ s'.db := by
  have hkeyed' : s.db.Keyed := hrun.keyed hkeyed
  cases h with
  | @joined user member code now hnew hu _ _ _ =>
    refine hrun.tables (.of_continues hkeyed' rfl rfl rfl rfl fun u => ?_)
    show User.Continues u (s.db.users u) (if u = user.telegramId then .some user else s.db.users u)
    split
    · next heq =>
      obtain rfl : u = p := heq.trans hnew.id
      rw [hu]
      exact ⟨heq.symm, hnew.balance, hnew.reserved⟩
    · exact .refl u _
  | coded | partnered | audited => exact hrun.tables (.of_continues hkeyed' rfl rfl rfl rfl fun u => .refl u _)
  | crowned | accepted => exact hrun.tables (Site.updateUser_sameTrade hkeyed' p fun _ => ⟨rfl, rfl, rfl, rfl⟩)
  | @hit visitor now code hrow hid =>
    have hvisitor : s.db.users visitor.telegramId = .some visitor := hid ▸ hrow
    dsimp only
    exact hrun.hit now code (fun _ => false) hvisitor

  | bonus _ _ hmakes => exact hmakes.commit ▸ hrun.wallet _ welcomeCall_sundry
  | paidOut _ _ hmakes => exact hmakes.commit ▸ hrun.wallet _ payoutCall_sundry
  | adjusted _ hmakes => exact hmakes.commit ▸ hrun.wallet _ adjustCall_sundry
  | granted _ _ _ => exact hrun.tables (Site.partnered_sameTrade hkeyed' _ _)
  | renamed | applied _ | reworded _ | decided _ _ _ => exact hrun

theorem Site.Steps.houseRun (h : Site.Steps env p s s') (hkeyed : db₀.Keyed)
    (hrun : HouseRun okOrder okPayment db₀ s.db) : HouseRun okOrder okPayment db₀ s'.db := by
  induction h with
  | refl => exact hrun
  | tail _ hstep ih => exact hstep.houseRun hkeyed ih

theorem SiteRun.houseRun (h : SiteRun env okOrder okPayment s₀ s) (hkeyed : s₀.db.Keyed) :
    HouseRun okOrder okPayment s₀.db s.db := by
  induction h with
  | start => exact .start
  | visit v _ hv ih => exact (v.steps (ih.keyed hkeyed) hv).houseRun hkeyed ih
  | order c _ hcaught hc ih => exact ih.order c hcaught hc
  | payment c _ hcaught hc ih => exact ih.payment c hcaught hc
  | operator _ ho ih => exact ih.tables ho.trade

end

/-- **The site is a house**: whatever members, staff and operator do, the tables
of the money go through a run of the house, so what holds of every run of the
house holds of every run of the site. -/
theorem site_run_is_house_run {env : SiteEnv} {okOrder : Db → OrderCall → Prop} {okPayment : Db → PaymentCall → Prop}
    {s₀ s : Site} (hkeyed : s₀.db.Keyed) (h : SiteRun env okOrder okPayment s₀ s) :
    HouseRun okOrder okPayment s₀.db s.db := h.houseRun hkeyed

/-! ## A town

The shop of before opens its doors: user 8 comes, then user 7 on the link of
user 8, who accepts the terms, pays ₹500 in and asks for ₹100 of it. User 8
applies to be a reseller; user 1, who owns the place, agrees and adds ₹7.
-/

/-- The digests of the three codes asked for. -/
def townEnv : SiteEnv where
  sha256 text :=
    if text = "falaron-ref:1" then
      #v[234, 67, 186, 113, 154, 241, 129, 252, 164, 218, 202, 188, 7, 244, 130, 190, 225, 83, 168, 176, 89, 153, 84, 90,
        197, 128, 200, 68, 118, 161, 155, 218]
    else if text = "falaron-ref:7" then
      #v[146, 179, 146, 59, 101, 172, 51, 25, 6, 89, 20, 251, 219, 210, 40, 205, 174, 243, 172, 193, 59, 41, 205, 74, 214,
        92, 198, 84, 76, 5, 31, 210]
    else
      #v[122, 128, 145, 184, 58, 148, 176, 26, 64, 101, 122, 32, 181, 249, 2, 207, 105, 65, 164, 69, 178, 101, 4, 66, 45,
        179, 46, 95, 222, 93, 114, 12]
  ownerTelegramId := 1
  welcomeBonusPaise := 5000

/-- Requests one after the other; what raises changes nothing. -/
def afterVisits (env : SiteEnv) (s : Site) (visits : List Visit) : Site :=
  visits.foldl (fun s v => match v.prog env s with
    | .ok (_, s') => s'
    | .error _ => s) s

theorem SiteRun.visits {env : SiteEnv} {okOrder : Db → OrderCall → Prop} {okPayment : Db → PaymentCall → Prop}
    {s₀ s : Site} {visits : List Visit} (h : SiteRun env okOrder okPayment s₀ s) :
    SiteRun env okOrder okPayment s₀ (afterVisits env s visits) := by
  induction visits generalizing s with
  | nil => exact h
  | cons v visits ih =>
    simp only [afterVisits, List.foldl_cons]
    cases hv : v.prog env s with
    | ok r => exact ih (h.visit v hv)
    | error _ => exact ih h

theorem afterVisits_ok {env : SiteEnv} {s : Site} {v : Visit} (h : (v.prog env s).isOk = true) :
    v.prog env s = .ok ((), afterVisits env s [v]) := by
  simp only [afterVisits, List.foldl_cons, List.foldl_nil]
  cases hv : v.prog env s with
  | ok r => rfl
  | error e =>
    rw [hv] at h
    cases h

theorem SiteRun.settlements {env : SiteEnv} {okOrder : Db → OrderCall → Prop} {s₀ s : Site} {calls : List PaymentCall}
    (h : SiteRun env okOrder (fun _ _ => True) s₀ s) :
    SiteRun env okOrder (fun _ _ => True) s₀ { s with db := afterPayments s.db calls } := by
  induction calls generalizing s with
  | nil => exact h
  | cons c calls ih =>
    have hstep : SiteRun env okOrder (fun _ _ => True) s₀ { s with db := c.prog.commit (fun _ => false) s.db } :=
      h.payment c (fun _ he => by cases he) trivial
    exact ih hstep

def openDoors : Site := { db := { catalog := shop.catalog } }

theorem openDoors_unvisited : Unvisited openDoors :=
  ⟨fun _ => rfl, fun _ => rfl, fun _ => rfl, rfl, rfl, fun _ => rfl, rfl, rfl, rfl⟩

def visitor (id : Int) : Profile := { telegramId := id }

def firstArrival : Site := afterVisits townEnv openDoors [.start 1 (visitor 8) .none]

def arrivals : Site :=
  afterVisits townEnv firstArrival [.start 2 (visitor 7) (.some "4AT24W"), .acceptTerms 3 (visitor 7)]

def funded : Site :=
  { arrivals with db := afterPayments arrivals.db [invoice "P", .webhook 4 "razorpay" (paidEvent "e1" "P" 50000)] }

def settledTown : Site :=
  afterVisits townEnv funded [.payout 5 (visitor 7) "PO1" "promoter" 10000, .apply 6 (visitor 8) "reseller" "forty shops",
    .decide 7 (visitor 1) 1 true, .adjust 8 (visitor 1) "thanks" 8 700 "ADJ1"]

section

variable {okOrder : Db → OrderCall → Prop} {okPayment : Db → PaymentCall → Prop} {s₀ : Site}

theorem SiteRun.arrivals (h : SiteRun townEnv okOrder okPayment s₀ firstArrival) :
    SiteRun townEnv okOrder okPayment s₀ Falaron.arrivals := h.visits

theorem SiteRun.settledTown (h : SiteRun townEnv okOrder (fun _ _ => True) s₀ Falaron.arrivals) :
    SiteRun townEnv okOrder (fun _ _ => True) s₀ Falaron.settledTown :=
  SiteRun.visits (s := funded) h.settlements

theorem firstArrival_run : SiteRun townEnv okOrder okPayment openDoors firstArrival := SiteRun.start.visits

theorem settledTown_run : SiteRun townEnv okOrder (fun _ _ => True) openDoors Falaron.settledTown :=
  firstArrival_run.arrivals.settledTown

end

theorem site_run_is_house_run_of_town :
    HouseRun (fun db c => ¬ c.Overruns db) (fun _ _ => True) openDoors.db settledTown.db :=
  site_run_is_house_run openDoors_unvisited.fresh.keyed settledTown_run

end Falaron
