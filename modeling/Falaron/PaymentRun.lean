/-
The payment service over whole runs of complete calls.

A run remembers which payments are held for a human: a report that did not
match the invoice put them in review, or an event that asks for attention
came in while they were not paid, and no operator has confirmed them since.
-/
import Falaron.PaymentSpecs

namespace Falaron

open Txn.Prog hiding pure

/-- Any call of the payment service. -/
inductive PaymentCall where
  | create (now : Time) (publicId : String) (user : User) (amountPaise : Int) (settings : Settings)
      (idempotencyKey gateway : Option String) (checkout : Except String Checkout)
  | webhook (now : Time) (gateway : String) (event : GatewayEvent)
  | reconcile (now : Time) (pass : Pass)
  | check (now : Time) (publicId : String) (userId : Int) (settings : Settings) (gateway : Option String)
      (answer : Except String GatewayStatus)
  | confirm (now : Time) (publicId actor : String)
  | mockPay (now : Time) (publicId : String) (userId : Int) (settings : Settings)

/-- What a call says about payments: the reports it settles by. -/
inductive PaymentCall.Reports (db : Db) : PaymentCall → Report → Prop
  | webhook {now gateway pid} {event : GatewayEvent} : event.kind = .paid → event.reference = .some pid → pid ≠ "" →
      Reports db (.webhook now gateway event) (event.report gateway pid)
  | reconcile {now p status} {pass : Pass} : p ∈ pass.rows now db → pass.answers p.publicId = .ok status →
      status.state = .paid → Reports db (.reconcile now pass) (status.report pass.gateway "reconcile" p)
  | check {now publicId p settings gateway status} : db.findPayment publicId = .some p → p.isCheckable = true →
      status.state = .paid → Reports db (.check now publicId p.userId settings gateway (.ok status))
        (status.report (gateway.getD "razorpay") "user-check" p)
  | confirm {now publicId p actor} : db.findPayment publicId = .some p →
      Reports db (.confirm now publicId actor) (p.manualReport actor)
  | mockPay {now publicId p settings} : settings.mockPaymentsAllowed = true → db.findPayment publicId = .some p →
      p.method = "mock" → Reports db (.mockPay now publicId p.userId settings) (p.mockReport p.userId)

namespace PaymentCall

def prog : PaymentCall → M Unit
  | create now publicId user amountPaise settings idempotencyKey gateway checkout => do
    let _ ← createDeposit now publicId user amountPaise settings idempotencyKey gateway checkout
  | webhook now gateway event => do
    let _ ← handleWebhookEvent now gateway event
  | reconcile now pass => do
    let _ ← reconcilePending now pass
  | check now publicId userId settings gateway answer => do
    let _ ← checkPayment now publicId userId settings gateway answer
  | confirm now publicId actor => do
    let _ ← manualConfirm now publicId actor
  | mockPay now publicId userId settings => do
    let _ ← Falaron.mockPay now publicId userId settings

/-- The call reports exactly this payment. -/
def Pays (db : Db) (c : PaymentCall) (p : Payment) : Prop := ∃ r, c.Reports db r ∧ r.Matches p

/-- An operator confirms the payment. -/
def Confirms (pid : String) : PaymentCall → Prop
  | confirm _ publicId _ => publicId = pid
  | _ => False

/-- The call leaves the payment held: it reports it, and not as the invoice
has it, or it brings an event that needs a human while it is not paid. -/
inductive PutsOnHold (db db' : Db) : PaymentCall → String → Prop
  | mismatch {c r p q} : c.Reports db r → db.findPayment r.publicId = .some p → p.status ≠ .paid → r.Addresses p →
      ¬ r.Matches p → db'.findPayment r.publicId = .some q → q.status = .review → PutsOnHold db db' c r.publicId
  | attention {now gateway event p} : event.kind = .attention → event.reference = .some p.publicId →
      p ∈ db.payments → p.status ≠ .paid → PutsOnHold db db' (webhook now gateway event) p.publicId

/-- The call is not an operator's, and reports a held payment exactly as the invoice has it. -/
def Releases (db : Db) (held : String → Prop) (c : PaymentCall) : Prop :=
  ∃ r p, c.Reports db r ∧ r.source ≠ "manual" ∧ held r.publicId ∧ db.findPayment r.publicId = .some p ∧ r.Matches p

end PaymentCall

/-- A change of other tables, or of the ledger by entries that are about no payment. -/
structure OtherThanPayments (a b : Db) : Prop where
  payments : b.payments = a.payments
  ledger : ∃ es, b.ledger = a.ledger ++ es ∧
    ∀ e ∈ es, e.paymentRef = .none ∧ e.idempotencyKey.paymentRef = .none

/-- The tables, and the payments held, after any run whose calls all meet `ok`. -/
inductive PaymentRun (ok : Db → (String → Prop) → PaymentCall → Prop) (db₀ : Db) : Db → (String → Prop) → Prop
  | start : PaymentRun ok db₀ db₀ fun _ => False
  | call {db held caught} (c : PaymentCall) : PaymentRun ok db₀ db held →
      (∀ e, caught e = true → e.isDeposit = true) → ok db held c →
      PaymentRun ok db₀ (c.prog.commit caught db) fun pid =>
        (held pid ∨ c.PutsOnHold db (c.prog.commit caught db) pid) ∧ ¬ c.Confirms pid
  | other {db held db'} : PaymentRun ok db₀ db held → OtherThanPayments db db' → PaymentRun ok db₀ db' held

/-- Calls one after the other, of which only the successful ones commit. -/
def afterPayments (db : Db) (calls : List PaymentCall) : Db :=
  calls.foldl (fun db c => c.prog.commit (fun _ => false) db) db

theorem PaymentRun.calls {db₀ db : Db} {held : String → Prop} {calls : List PaymentCall}
    (h : PaymentRun (fun _ _ _ => True) db₀ db held) :
    ∃ held', PaymentRun (fun _ _ _ => True) db₀ (afterPayments db calls) held' := by
  induction calls generalizing db held with
  | nil => exact ⟨held, h⟩
  | cons c calls ih => exact ih (.call c h (fun _ he => by cases he) trivial)

/-! ## What a call does -/

namespace PaymentCall

variable {db db' : Db} {c : PaymentCall} {r : Report}

theorem wp_prog (hb : PaymentBooks True .none db) (c : PaymentCall) :
    c.prog.wp (fun _ => Dealing (c.Pays db) db .none []) (DepositErrors (c.Pays db) db) { db := db } := by
  cases c with
  | create now publicId user amountPaise settings idempotencyKey gateway checkout =>
    simp only [prog, wp_bind]
    exact wp_createDeposit hb
  | webhook now gateway event =>
    simp only [prog, wp_bind]
    exact wp_handleWebhookEvent hb fun pid p hk href hne _ hm => ⟨_, .webhook hk href hne, hm⟩
  | reconcile now pass =>
    simp only [prog, wp_bind]
    exact wp_reconcilePending hb fun p hp status ha hst hm => ⟨_, .reconcile hp ha hst, hm⟩
  | check now publicId userId settings gateway answer =>
    simp only [prog, wp_bind]
    refine wp_checkPayment hb fun p status hf hown hcheck ha hst hm => ?_
    subst hown ha
    exact ⟨_, .check hf hcheck hst, hm⟩
  | confirm now publicId actor =>
    simp only [prog, wp_bind]
    exact wp_manualConfirm hb fun p hf hm => ⟨_, .confirm hf, hm⟩
  | mockPay now publicId userId settings =>
    simp only [prog, wp_bind]
    refine wp_mockPay hb fun p hallowed hf hown hmethod hm => ?_
    subst hown
    exact ⟨_, .mockPay hallowed hf hmethod, hm⟩

/-- What its caller commits. -/
theorem commit_ends {caught : Err → Bool} (hcaught : ∀ e, caught e = true → e.isDeposit = true)
    (hb : PaymentBooks True .none db) (c : PaymentCall) :
    PaymentsAt (c.Pays db) db .none [] (c.prog.commit caught db) := by
  have h₀ : PaymentsAt (c.Pays db) db .none [] db := .start hb (by simp)
  have hok (s : Session) (h : Dealing (c.Pays db) db .none [] s) :
      PaymentsAt (c.Pays db) db .none [] ((Txn.flushAll s.staged s.db).getD db) :=
    Txn.Session.Will.commit h h₀ fun _ h' => h'
  exact commit_of_wp h₀ (wp_mono (wp_prog hb c) (fun _ => hok) fun e s he hce => hok s (he (hcaught e hce)))

/-- Only an operator reports by hand. -/
theorem confirms_of_manual (h : c.Reports db r) (hs : r.source = "manual") : c.Confirms r.publicId := by
  cases h with
  | confirm hf => exact (Db.findPayment_mem hf).2.symm
  | webhook => exact absurd hs (by simp [GatewayEvent.report])
  | reconcile => exact absurd hs (by simp [GatewayStatus.report])
  | check => exact absurd hs (by simp [GatewayStatus.report])
  | mockPay => exact absurd hs (by simp [Payment.mockReport])

end PaymentCall

namespace Db.PaymentsSince

variable {reported : Payment → Prop} {a b : Db} {pid : String}

/-- A payment that was not reported has the credits it had. -/
theorem credits_eq (h : a.PaymentsSince reported b) (hn : ∀ p ∈ a.payments, p.publicId = pid → ¬ reported p) :
    b.depositCredits pid = a.depositCredits pid := by
  obtain ⟨es, hes, hall⟩ := h.ledger
  rw [Db.depositCredits_append hes, List.append_right_eq_self, List.filter_eq_nil_iff]
  intro e he hc
  simp only [Bool.and_eq_true, beq_iff_eq] at hc
  obtain ⟨p, hp, hid, hr⟩ := hall e he pid hc.2
  exact hn p hp hid hr

end Db.PaymentsSince

namespace OtherThanPayments

variable {a b : Db}

theorem books (h : OtherThanPayments a b) (hb : PaymentBooks True .none a) : PaymentBooks True .none b := by
  obtain ⟨es, hes, hnone⟩ := h.ledger
  have hcred (pid : String) : b.depositCredits pid = a.depositCredits pid := by
    rw [Db.depositCredits_append hes, List.append_right_eq_self, List.filter_eq_nil_iff]
    intro e he hc
    simp [(hnone e he).1] at hc
  refine ⟨h.payments ▸ hb.ids, fun e he => ?_, fun e he pid hpid => ?_, fun p hp => ?_, fun _ hq => by cases hq⟩
  · rw [hes] at he
    rcases List.mem_append.mp he with he | he
    · exact hb.refs e he
    · exact ⟨(hnone e he).2.trans (hnone e he).1.symm, fun hs => by simp [(hnone e he).1] at hs⟩
  · rw [hes] at he
    rw [h.payments]
    rcases List.mem_append.mp he with he | he
    · exact hb.known e he pid hpid
    · simp [(hnone e he).1] at hpid
  · exact (hb.settled p (h.payments ▸ hp)).congr (hcred _)

end OtherThanPayments

/-! ## Every run -/

/-- No payment has been made yet. -/
structure NoPayments (db : Db) : Prop where
  payments : db.payments = []
  entries : ∀ e ∈ db.ledger, e.paymentRef = .none ∧ e.idempotencyKey.paymentRef = .none

theorem NoPayments.books {db : Db} (h : NoPayments db) : PaymentBooks True .none db where
  ids := by rw [h.payments]; exact List.nodup_nil
  refs e he := ⟨(h.entries e he).2.trans (h.entries e he).1.symm, fun hs => by simp [(h.entries e he).1] at hs⟩
  known e he pid hp := by simp [(h.entries e he).1] at hp
  settled := by simp [h.payments]
  credited := nofun

section

variable {ok : Db → (String → Prop) → PaymentCall → Prop} {db₀ db : Db} {held : String → Prop}

theorem PaymentRun.books (h₀ : PaymentBooks True .none db₀) (h : PaymentRun ok db₀ db held) :
    PaymentBooks True .none db := by
  induction h with
  | start => exact h₀
  | call c _ hcaught _ ih => exact (c.commit_ends hcaught ih).books
  | other _ ho ih => exact ho.books ih

/-- A payment that is paid stays as it is. -/
theorem PaymentRun.paid (h₀ : PaymentBooks True .none db₀) (h : PaymentRun ok db₀ db held) {p : Payment}
    (hp : p ∈ db₀.payments) (hpaid : p.status = .paid) : p ∈ db.payments := by
  induction h with
  | start => exact hp
  | call c hrun hcaught _ ih =>
    obtain ⟨q, hq, _, hsame⟩ := (c.commit_ends hcaught (hrun.books h₀)).since.payments p ih
    exact hsame hpaid ▸ hq
  | other _ ho ih => exact ho.payments ▸ ih

end

/-- **Deposits are settled exactly, and once.** In every state of every run:
a payment is paid exactly when there is one credit for it, of the invoice
amount, on the owner's wallet and under its deposit key, and it has no credit
otherwise. Whatever call comes next, a credit it makes is for a payment it
reports as the invoice has it. And a payment that is paid stays as it is in
whatever run follows. -/
theorem deposits_settle_once {db₀ db : Db} {held : String → Prop} (h₀ : NoPayments db₀)
    (h : PaymentRun (fun _ _ _ => True) db₀ db held) :
    (∀ p ∈ db.payments, (p.status = .paid ↔ ∃ e, db.depositCredits p.publicId = [e] ∧ e.Settles p) ∧
      (p.status ≠ .paid → db.depositCredits p.publicId = [])) ∧
    (∀ (c : PaymentCall) caught, (∀ e, caught e = true → e.isDeposit = true) →
      ∀ e ∈ (c.prog.commit caught db).ledger, e ∉ db.ledger → ∀ pid, e.paymentRef = .some pid →
        ∃ r p, c.Reports db r ∧ db.findPayment pid = .some p ∧ r.Matches p) ∧
    ∀ db' held', PaymentRun (fun _ _ _ => True) db db' held' → ∀ p ∈ db.payments, p.status = .paid →
      db'.findPayment p.publicId = .some p := by
  have hb := h.books h₀.books
  refine ⟨fun p hp => ⟨hb.paid_iff hp, hb.credits_nil hp⟩, fun c caught hcaught e he hnew pid hpid => ?_,
    fun db' held' h' p hp hpaid => ?_⟩
  · obtain ⟨es, hes, hall⟩ := (c.commit_ends hcaught hb).since.ledger
    rw [hes] at he
    obtain ⟨p, hp, rfl, r, hr, hm⟩ := hall e ((List.mem_append.mp he).resolve_left hnew) pid hpid
    exact ⟨r, p, hr, Db.findPayment_of_mem hb.ids hp, hm⟩
  · exact Db.findPayment_of_mem (h'.books hb).ids (h'.paid hb hp hpaid)

/-- One customer, and no payment yet. -/
def till : Db where
  users u := if u = 7 then .some { telegramId := 7 } else .none

theorem till_opening : NoPayments till := ⟨rfl, by simp [till]⟩

def liveSettings : Settings where
  isProduction := true
  paymentGateway := .razorpay
  enableMockPayments := false
  razorpayKeyId := .some "rzp"
  razorpayKeySecret := .some "secret"
  razorpayWebhookSecret := .some "hook"
  minDepositPaise := 10000
  maxDepositPaise := 5000000
  currencyCode := "INR"

/-- An invoice of ₹500, with its link at the gateway. -/
def invoice (publicId : String) : PaymentCall :=
  .create 0 publicId { telegramId := 7 } 50000 liveSettings .none .none (.ok ⟨"https://rzp.io/i/x", "plink_x"⟩)

/-- The event that the link was paid. -/
def paidEvent (eventId publicId : String) (amountPaise : Int) : GatewayEvent where
  eventId := eventId
  eventType := "payment_link.paid"
  kind := .paid
  reference := .some publicId
  gatewayRef := .some "plink_x"
  amountPaise := .some amountPaise
  currency := .some "INR"

/-- The event comes, comes again, and comes once more under another id. -/
theorem deposits_settle_once_of_redelivery :
    let db := afterPayments till [invoice "P", .webhook 1 "razorpay" (paidEvent "e1" "P" 50000),
      .webhook 2 "razorpay" (paidEvent "e1" "P" 50000), .webhook 3 "razorpay" (paidEvent "e2" "P" 50000)]
    (db.findPayment "P").map (·.status) = .some .paid ∧
    ∀ p ∈ db.payments, p.status = .paid ↔ ∃ e, db.depositCredits p.publicId = [e] ∧ e.Settles p := by
  intro db
  obtain ⟨held, h⟩ : ∃ held, PaymentRun (fun _ _ _ => True) till db held := PaymentRun.start.calls
  exact ⟨by decide +kernel, fun p hp => ((deposits_settle_once till_opening h).1 p hp).1⟩

/-! ## Held payments -/

/-- A held payment that nobody releases has no credit. -/
theorem PaymentCall.credits_of_held {db : Db} {held : String → Prop} {c : PaymentCall} {caught : Err → Bool}
    (hb : PaymentBooks True .none db) (hcaught : ∀ e, caught e = true → e.isDeposit = true)
    (hc : ¬ c.Releases db held) {pid : String} (hheld : held pid) (hconf : ¬ c.Confirms pid) :
    (c.prog.commit caught db).depositCredits pid = db.depositCredits pid := by
  refine (c.commit_ends hcaught hb).since.credits_eq fun p hp hid hpays => ?_
  obtain ⟨r, hr, hm⟩ := hpays
  have hrid : r.publicId = pid := hm.publicId.trans hid
  by_cases hs : r.source = "manual"
  · exact hconf (hrid ▸ confirms_of_manual hr hs)
  · refine hc ⟨r, p, hr, hs, hrid.symm ▸ hheld, ?_, hm⟩
    rw [hrid, ← hid]
    exact Db.findPayment_of_mem hb.ids hp

theorem PaymentCall.PutsOnHold.uncredited {db : Db} {c : PaymentCall} {caught : Err → Bool}
    (hb : PaymentBooks True .none db) (hcaught : ∀ e, caught e = true → e.isDeposit = true) {pid : String}
    (h : c.PutsOnHold db (c.prog.commit caught db) pid) : (c.prog.commit caught db).depositCredits pid = [] := by
  have hat := c.commit_ends hcaught hb
  cases h with
  | mismatch _ _ _ _ _ hq hst =>
    obtain ⟨hm, hid⟩ := Db.findPayment_mem hq
    rw [← hid]
    exact hat.books.credits_nil hm (by simp [hst])
  | attention hk href hp hn =>
    -- an event of this kind settles nothing
    rw [hat.since.credits_eq fun q _ _ hpays => ?_, hb.credits_nil hp hn]
    obtain ⟨r, hr, _⟩ := hpays
    cases hr with
    | webhook hk' => rw [hk] at hk'; cases hk'

/-- **Held payments stay held**, in every run in which, once a payment is
held, no call but an operator's reports it as the invoice has it. -/
theorem held_payments_uncredited {db₀ db : Db} {held : String → Prop} (h₀ : NoPayments db₀)
    (h : PaymentRun (fun db held c => ¬ c.Releases db held) db₀ db held) :
    ∀ pid, held pid → db.depositCredits pid = [] ∧ ∀ p, db.findPayment pid = .some p → p.status ≠ .paid := by
  have hnil : ∀ pid, held pid → db.depositCredits pid = [] := by
    induction h with
    | start => exact fun _ hf => hf.elim
    | call c hrun hcaught hc ih =>
      rintro pid ⟨hheld | hputs, hconf⟩
      · exact (PaymentCall.credits_of_held (hrun.books h₀.books) hcaught hc hheld hconf).trans (ih pid hheld)
      · exact hputs.uncredited (hrun.books h₀.books) hcaught
    | other hrun ho ih =>
      intro pid hheld
      obtain ⟨es, hes, hnone⟩ := ho.ledger
      rw [Db.depositCredits_append hes, ih pid hheld, List.nil_append, List.filter_eq_nil_iff]
      intro e he hc'
      simp [(hnone e he).1] at hc'
  refine fun pid hheld => ⟨hnil pid hheld, fun p hp hpaid => ?_⟩
  obtain ⟨hm, rfl⟩ := Db.findPayment_mem hp
  obtain ⟨e, he, _⟩ := ((h.books h₀.books).paid_iff hm).mp hpaid
  rw [hnil _ hheld] at he
  cases he

/-- The row of `invoice "P"`. -/
def invoiceRow : Payment :=
  { newInvoice 0 "P" 7 50000 liveSettings (.pay 7 50000 0) with
    providerRef := .some "plink_x", checkoutUrl := .some "https://rzp.io/i/x" }

/-- A paid event with another amount. -/
def shortPaid : PaymentCall := .webhook 1 "razorpay" (paidEvent "e1" "P" 100)

theorem not_putsOnHold_invoice {db db' : Db} {publicId pid : String} :
    ¬ (invoice publicId).PutsOnHold db db' pid := by
  intro h
  generalize hc : invoice publicId = c at h
  cases h with
  | mismatch hr => subst hc; cases hr
  | attention => cases hc

/-- It is held once that event has come. -/
theorem shortPaid_run (ok : Db → (String → Prop) → PaymentCall → Prop) (hok : ∀ db held, ok db held (invoice "P"))
    (hok' : ∀ db held, ¬ held "P" → ok db held shortPaid) :
    ∃ held, held "P" ∧ PaymentRun ok till (afterPayments till [invoice "P", shortPaid]) held := by
  have hno (e : Err) (he : (fun _ => false) e = true) : e.isDeposit = true := by cases he
  have hstart : PaymentRun ok till till fun _ => False := .start
  have hrun := hstart.call (invoice "P") hno (hok _ _)
  refine ⟨_, ⟨.inr ?_, id⟩, hrun.call shortPaid hno (hok' _ _ ?_)⟩
  · rintro ⟨hf | hf, _⟩
    · exact hf
    · exact not_putsOnHold_invoice hf
  · have hrow : (afterPayments till [invoice "P"]).findPayment "P" = .some invoiceRow := by decide +kernel
    have hrow' : (afterPayments till [invoice "P", shortPaid]).findPayment "P" =
        .some { invoiceRow with
          status := .review
          failureReason := .some "mismatch: expected 50000 INR, got 100 INR" } := by decide +kernel
    refine .mismatch (.webhook rfl rfl (by decide)) hrow (by decide) ⟨rfl, .inr rfl, ?_⟩ (fun hm => ?_) hrow' rfl
    · rintro a b ⟨⟩ _ ⟨⟩ _
      rfl
    · exact absurd hm.amount (by decide)

theorem held_payments_uncredited_of_mismatch :
    let db := afterPayments till [invoice "P", shortPaid]
    ∃ held, PaymentRun (fun db held c => ¬ c.Releases db held) till db held ∧ held "P" ∧
      db.depositCredits "P" = [] := by
  obtain ⟨held, hheld, hrun⟩ := shortPaid_run (fun db held c => ¬ c.Releases db held)
    (fun db held ⟨_, _, hr, _⟩ => by cases hr) fun db held hn ⟨r, _, hr, _, hh, _⟩ => by
      cases hr with
      | webhook _ href => exact hn (Option.some.inj href ▸ hh)
  exact ⟨held, hrun, hheld, (held_payments_uncredited till_opening hrun "P" hheld).1⟩

/-- The amount does not match, and the payment is held; an event that does match comes later, and credits it. -/
theorem held_payment_credited :
    let db := afterPayments till [invoice "P", shortPaid, .webhook 2 "razorpay" (paidEvent "e2" "P" 50000)]
    NoPayments till ∧ ∃ held, held "P" ∧ PaymentRun (fun _ _ _ => True) till db held ∧
      db.depositCredits "P" ≠ [] := by
  intro db
  obtain ⟨held, hheld, hrun⟩ := shortPaid_run (fun _ _ _ => True) (fun _ _ => trivial) fun _ _ _ => trivial
  have hno (e : Err) (he : (fun _ => false) e = true) : e.isDeposit = true := by cases he
  exact ⟨till_opening, _, ⟨.inl hheld, id⟩,
    hrun.call (.webhook 2 "razorpay" (paidEvent "e2" "P" 50000)) hno trivial, by decide +kernel⟩

end Falaron
