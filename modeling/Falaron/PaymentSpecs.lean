/-
What each operation of the payment service does, one session alone.

A call starts from committed books (`base`). What will hold of its session
once it has flushed is `PaymentsAt`: the books, open at most on the payment
being settled, and what has become of the payments since `base`. The only
error after which a caller commits is the user-facing one of a deposit.
-/
import Falaron.PaymentBooks

namespace Falaron

open Text (upper)
open Txn.Prog hiding pure

/-- The report is about this invoice: it comes from the invoice's gateway,
unless an operator made it, and names the invoice's reference if both have one. -/
structure Report.Addresses (r : Report) (p : Payment) : Prop where
  publicId : r.publicId = p.publicId
  gateway : r.source = "manual" ∨ r.gateway = p.method
  ref : ∀ a b, p.providerRef = .some a → a ≠ "" → r.gatewayRef = .some b → b ≠ "" → a = b

/-- The report says that exactly this invoice was paid. -/
structure Report.Matches (r : Report) (p : Payment) : Prop extends r.Addresses p where
  amount : r.amountPaise = .some p.amountPaise
  currency : ∀ c, r.currency = .some c → c ≠ "" → upper c = upper p.currency

theorem truthy_some {s : String} : truthy (.some s) = true ↔ s ≠ "" := by simp [truthy]

section

variable {r : Report} {p : Payment}

theorem Report.Addresses.of (hid : r.publicId = p.publicId) (hg : r.wrongGateway p = false)
    (href : r.wrongRef p = false) : r.Addresses p := by
  simp only [wrongGateway, Bool.and_eq_false_iff, decide_eq_false_iff_not, ne_eq, not_not] at hg
  refine ⟨hid, hg.symm.imp_right Eq.symm, fun a b ha hna hb hnb => ?_⟩
  simp only [wrongRef, ha, hb, truthy_some.mpr hna, truthy_some.mpr hnb, Bool.true_and, decide_eq_false_iff_not,
    ne_eq, not_not, Option.some.injEq] at href
  exact href

theorem Report.Matches.of (ha : r.Addresses p) (hm : r.mismatch p = false) : r.Matches p := by
  simp only [mismatch, Bool.or_eq_false_iff, decide_eq_false_iff_not, ne_eq, not_not] at hm
  refine ⟨ha, hm.1, fun c hc hne => ?_⟩
  simpa [cur, hc, truthy_some.mpr hne] using hm.2

end

/-- What has become of the payments since `a`: one that was paid is as it was,
and only one of the `reported` has been credited. -/
structure Db.PaymentsSince (reported : Payment → Prop) (a b : Db) : Prop where
  ledger : ∃ es, b.ledger = a.ledger ++ es ∧ ∀ e ∈ es, ∀ pid, e.paymentRef = .some pid →
    ∃ p ∈ a.payments, p.publicId = pid ∧ reported p
  payments : ∀ p ∈ a.payments, ∃ q ∈ b.payments, p.SameInvoice q ∧ (p.status = .paid → q = p)

namespace Db.PaymentsSince

variable {reported : Payment → Prop} {a b c : Db}

theorem refl (a : Db) : a.PaymentsSince reported a := ⟨⟨[], by simp⟩, fun p hp => ⟨p, hp, .refl p, fun _ => rfl⟩⟩

theorem congr (h : a.PaymentsSince reported b) (hp : c.payments = b.payments) (hl : c.ledger = b.ledger) :
    a.PaymentsSince reported c := ⟨hl ▸ h.ledger, hp ▸ h.payments⟩

theorem posted (h : a.PaymentsSince reported b) {e : LedgerEntry}
    (he : ∀ pid, e.paymentRef = .some pid → ∃ p ∈ a.payments, p.publicId = pid ∧ reported p) :
    a.PaymentsSince reported (b.posted e) := by
  obtain ⟨es, hes, hall⟩ := h.ledger
  refine ⟨⟨es ++ [e], by simp [hes], fun e' he' => ?_⟩, h.payments⟩
  rcases List.mem_append.mp he' with he' | he'
  · exact hall e' he'
  · obtain rfl := List.mem_singleton.mp he'
    exact he

end Db.PaymentsSince

/-- The row of the copy itself becomes what the copy was set to. -/
theorem Payment.flushed_self {p q : Payment} (h : p.SameInvoice q) : p.flushed q p = q := by
  rw [h]
  simp only [Payment.flushed, written]
  congr 1 <;> (split <;> simp_all)

/-! ## The books while a call is at work -/

/-- The books, what has become of the payments since `base`, and the rows
the call has loaded and not yet dealt with. -/
structure PaymentsAt (reported : Payment → Prop) (base : Db) (ex : Option String) (rest : List Payment)
    (db : Db) : Prop where
  books : PaymentBooks True ex db
  since : base.PaymentsSince reported db
  rest : ∀ q ∈ rest, q ∈ db.payments

namespace PaymentsAt

variable {reported : Payment → Prop} {base db db' : Db} {ex : Option String} {p : Payment} {rest : List Payment}

theorem quiet (h : PaymentsAt reported base ex rest db) (hp : db'.payments = db.payments)
    (hl : db'.ledger = db.ledger) : PaymentsAt reported base ex rest db' :=
  ⟨h.books.congr hp hl, h.since.congr hp hl, hp ▸ h.rest⟩

/-- The row of a loaded payment that was not paid is set. -/
theorem update (h : PaymentsAt reported base ex (p :: rest) db) {f : Payment → Payment}
    (hex : ∀ q, q ≠ p.publicId → ex ≠ .some q) (hf : p.SameInvoice (f p)) (hn : p.status ≠ .paid)
    (hrest : ∀ q ∈ rest, q.publicId ≠ p.publicId) (hs : db.Settled True (f p)) :
    PaymentsAt reported base .none rest (db.updatePayment p.publicId (p.flushed (f p))) := by
  have hp := h.rest p (by simp)
  have hflush : p.flushed (f p) p = f p := Payment.flushed_self hf
  refine ⟨h.books.updated hex fun q hq hid => ?_, ⟨h.since.ledger, fun p₀ hp₀ => ?_⟩, fun q hq => ?_⟩
  · obtain rfl := List.inj_on_of_nodup_map h.books.ids hq hp hid
    rw [hflush]
    exact ⟨hf, hs⟩
  · obtain ⟨q, hq, hsame, hpaid⟩ := h.since.payments p₀ hp₀
    by_cases hid : q.publicId = p.publicId
    · obtain rfl := List.inj_on_of_nodup_map h.books.ids hq hp hid
      refine ⟨f q, List.mem_map.mpr ⟨q, hq, by rw [if_pos rfl, hflush]⟩, hsame.trans hf, fun h₀ => ?_⟩
      exact absurd (hpaid h₀ ▸ h₀) hn
    · exact ⟨q, List.mem_map.mpr ⟨q, hq, if_neg hid⟩, hsame, hpaid⟩
  · exact List.mem_map.mpr ⟨q, h.rest q (by simp [hq]), if_neg (hrest q hq)⟩

/-- The credit of a loaded payment that was not paid. -/
theorem deposited (h : PaymentsAt reported base .none (p :: rest) db) {e : LedgerEntry}
    (hn : p.status ≠ .paid) (hbase : p ∈ base.payments) (hrep : reported p)
    (he : Posts db p.deposit .credit (.deposit p.publicId) (creditDraft p.amountPaise) e) :
    PaymentsAt reported base (.some p.publicId) (p :: rest) (db.posted e) := by
  have hp := h.rest p (by simp)
  obtain ⟨user, d, _, hd, rfl, _⟩ := he.drafted
  obtain rfl := Except.ok.inj hd
  have href : (p.deposit.entry .credit (.deposit p.publicId) ⟨p.amountPaise, user.cachedBalancePaise + p.amountPaise,
      user.cachedReservedPaise⟩).paymentRef = .some p.publicId := rfl
  refine ⟨h.books.posted_deposit hp (h.books.credits_nil hp hn) ⟨rfl, rfl, rfl⟩ rfl href, ?_, h.rest⟩
  exact h.since.posted fun pid hpid => ⟨p, hbase, Option.some.inj (href.symm.trans hpid), hrep⟩

/-- A credit that is about no payment. -/
theorem credited_other (h : PaymentsAt reported base ex rest db) {q : Posting} {key : Key} {e : LedgerEntry}
    (he : Posts db q .credit key (creditDraft q.amountPaise) e) (href : q.referenceType ≠ .some "payment")
    (hkey : key.paymentRef = .none) : PaymentsAt reported base ex rest (db.posted e) := by
  obtain ⟨user, d, _, _, rfl, _⟩ := he.drafted
  have hnone : (q.entry .credit key d).paymentRef = .none := if_neg href
  refine ⟨h.books.posted_other hnone hkey, h.since.posted fun pid hpid => ?_, h.rest⟩
  rw [hnone] at hpid
  cases hpid

end PaymentsAt

/-- A user-facing problem of a deposit: its caller may commit. -/
def Err.isDeposit : Err → Bool
  | .deposit _ => true
  | _ => false

/-- What will hold of the session of a call at work. -/
def Dealing (reported : Payment → Prop) (base : Db) (ex : Option String) (rest : List Payment) (s : Session) : Prop :=
  s.Will fun s' => PaymentsAt reported base ex rest s'.db

/-- After an error that its caller may commit, a call has kept the books. -/
def DepositErrors (reported : Payment → Prop) (base : Db) (e : Err) (s : Session) : Prop :=
  e.isDeposit = true → Dealing reported base .none [] s

section

variable {reported : Payment → Prop} {base : Db} {ex : Option String} {p : Payment} {rest : List Payment}
  {s : Session}

theorem PaymentsAt.dealing (h : PaymentsAt reported base ex rest s.db) (hst : s.staged = []) :
    Dealing reported base ex rest s := .of hst h

theorem DepositErrors.internal {e : Err} (h : e.isDeposit = false) : DepositErrors reported base e s :=
  fun h' => by rw [h] at h'; cases h'

/-! ## Rules -/

theorem wp_paymentsQuiet {w : Stmt} {Q : Unit → Session → Prop} (h : Dealing reported base ex rest s)
    (hw : ∀ db, (w.apply db).payments = db.payments ∧ (w.apply db).ledger = db.ledger)
    (hQ : ∀ s', Dealing reported base ex rest s' → Q () s') :
    (write w : M Unit).wp Q (DepositErrors reported base) s :=
  wp_write_will h (fun s' ha _ => ha.quiet (hw s'.db).1 (hw s'.db).2) fun s' _ hw' => hQ s' hw'

theorem wp_paymentsFlush {Q : Unit → Session → Prop} (h : Dealing reported base ex rest s)
    (hQ : ∀ s', s'.staged = [] → PaymentsAt reported base ex rest s'.db → Q () s') :
    (flush : M Unit).wp Q (DepositErrors reported base) s :=
  wp_flushed_will h (.internal rfl) fun s' hst _ ha => hQ s' hst ha

theorem wp_paymentsAudit {now : Time} {actor action : String} {target reason : Option String}
    {Q : Unit → Session → Prop} (h : Dealing reported base ex rest s)
    (hQ : ∀ s', Dealing reported base ex rest s' → Q () s') :
    (audit now actor action target reason).wp Q (DepositErrors reported base) s := by
  simp only [audit, wp_bind]
  refine wp_paymentsQuiet h (fun _ => ⟨rfl, rfl⟩) fun s₁ h₁ => ?_
  exact wp_paymentsFlush h₁ fun s₂ hst h₂ => hQ s₂ (.of hst h₂)

theorem wp_setPayment {f : Payment → Payment} {Q : Payment → Session → Prop}
    (h : Dealing reported base ex (p :: rest) s) (hex : ∀ q, q ≠ p.publicId → ex ≠ .some q)
    (hf : p.SameInvoice (f p)) (hn : p.status ≠ .paid) (hrest : ∀ q ∈ rest, q.publicId ≠ p.publicId)
    (hs : ∀ db, PaymentsAt reported base ex (p :: rest) db → db.Settled True (f p))
    (hQ : ∀ s', Dealing reported base .none rest s' → Q (f p) s') :
    (setPayment p f).wp Q (DepositErrors reported base) s := by
  simp only [setPayment, wp_bind]
  exact wp_write_will h (fun s' ha _ => ha.update hex hf hn hrest (hs s'.db ha)) fun s' _ hw => hQ s' hw

/-- A credit, of a deposit or of something else. -/
theorem wp_paymentsCredit {q : Posting} {key : Key} {Q : LedgerEntry → Session → Prop}
    (h : Dealing reported base ex rest s) (hkey : ∀ d, Key.orElse (.some key) d = key)
    (hreplay : ∀ e s', PaymentsAt reported base ex rest s'.db → s'.staged = [] →
      s'.db.findEntry key = .some e → Q e s')
    (hpost : ∀ e db, PaymentsAt reported base ex rest db → Posts db q .credit key (creditDraft q.amountPaise) e →
      Q e { s with db := db.posted e, staged := [] }) :
    (credit q (.some key)).wp Q (DepositErrors reported base) s := by
  simp only [credit, hkey]
  by_cases hpos : 0 < q.amountPaise
  · cases hf : Txn.flushAll s.staged s.db with
    | none => exact wp_post_stuck hf hpos (.internal rfl)
    | some db =>
      have hat : PaymentsAt reported base ex rest db := h db hf
      refine wp_post hf (fun hneg => absurd hpos hneg) (fun err hr => ?_) (fun e _ he => hreplay e _ hat rfl he)
        fun e he => hpost e db hat he
      cases hr with
      | draft _ _ hd => cases hd
      | _ => exact .internal rfl
  · simp only [post, wp_bind, wp_require, decide_eq_true_eq, if_neg hpos]
    exact .internal rfl

/-! ## Settling -/

theorem wp_holdForReview {now : Time} {r : Report} {Q : Payment × SettleOutcome → Session → Prop}
    (h : Dealing reported base .none (p :: rest) s) (hn : p.status ≠ .paid)
    (hrest : ∀ q ∈ rest, q.publicId ≠ p.publicId) (hQ : ∀ x s', Dealing reported base .none rest s' → Q x s') :
    (holdForReview now p r).wp Q (DepositErrors reported base) s := by
  simp only [holdForReview, wp_bind]
  refine wp_setPayment h (by simp) rfl hn hrest (fun db ha => ?_) fun s₁ h₁ => ?_
  · have hnil := ha.books.credits_nil (ha.rest p (by simp)) hn
    exact .unpaid hnil (by simp)
  · exact wp_paymentsAudit h₁ fun s₂ h₂ => hQ _ s₂ h₂

theorem wp_creditDeposit {now : Time} {r : Report} {Q : Payment × SettleOutcome → Session → Prop}
    (h : Dealing reported base .none (p :: rest) s) (hn : p.status ≠ .paid)
    (hrest : ∀ q ∈ rest, q.publicId ≠ p.publicId) (hbase : p ∈ base.payments) (hrep : reported p)
    (hQ : ∀ x s', Dealing reported base .none rest s' → Q x s') :
    (creditDeposit now p r).wp Q (DepositErrors reported base) s := by
  simp only [creditDeposit, wp_bind, wp_query]
  cases s.db.users p.userId with
  | none =>
    simp only [wp_bind]
    refine wp_setPayment h (by simp) rfl hn hrest (fun db ha => ?_) fun s₁ h₁ => hQ _ s₁ h₁
    have hnil := ha.books.credits_nil (ha.rest p (by simp)) hn
    exact .unpaid hnil (by simp)
  | some user =>
    simp only [wp_bind]
    refine wp_paymentsCredit h (fun _ => rfl) (fun e s₁ h₁ hst he => ?_) fun e db ha he => ?_
    · -- the key is not in the ledger yet: the payment is not paid
      have hnil := (h₁.books.findEntry_deposit _).mpr (h₁.books.credits_nil (h₁.rest p (by simp)) hn)
      rw [hnil] at he
      cases he
    · have h₁ : Dealing reported base (.some p.publicId) (p :: rest) { s with db := db.posted e, staged := [] } :=
        .of rfl (ha.deposited hn hbase hrep he)
      refine wp_setPayment h₁ (fun q hq hq' => hq (Option.some.inj hq').symm) rfl hn hrest (fun db' ha' => ?_)
        fun s₂ h₂ => ?_
      · have hcred := ha'.books.credited _ rfl
        exact (ha'.books.settled p (ha'.rest p (by simp))).update rfl (fun hnil => absurd hnil hcred) fun _ _ => rfl
      · refine wp_creditDepositCommission (wp_paymentsAudit h₂ fun s₃ h₃ => hQ _ s₃ h₃) fun q _ href => ?_
        refine wp_paymentsCredit h₂ (fun _ => rfl) (fun _ s₃ h₃ hst _ => ?_) fun e' db' ha' he' => ?_
        · exact wp_paymentsAudit (.of hst h₃) fun s₄ h₄ => hQ _ s₄ h₄
        · have h₃ := ha'.credited_other he' (by simp [href]) rfl
          exact wp_paymentsAudit (.of rfl h₃) fun s₄ h₄ => hQ _ s₄ h₄

/-- What a report does to the payment it is about: nothing, a hold, or a credit if it matches. -/
theorem wp_settleLocked {now : Time} {r : Report} {Q : Payment × SettleOutcome → Session → Prop}
    (h : Dealing reported base .none (p :: rest) s) (hrest : ∀ q ∈ rest, q.publicId ≠ p.publicId)
    (hbase : p ∈ base.payments) (hid : r.publicId = p.publicId) (hrep : r.Matches p → reported p)
    (hQ : ∀ x s', Dealing reported base .none rest s' → Q x s') :
    (settleLocked now p r).wp Q (DepositErrors reported base) s := by
  have hdone (x) : Q x s := hQ x s (h.mono fun _ ha => ⟨ha.books, ha.since, fun q hq => ha.rest q (by simp [hq])⟩)
  unfold settleLocked
  split
  · exact hdone _
  next hg =>
  split
  · exact hdone _
  next href =>
  split
  · exact hdone _
  next hn =>
  split
  · exact wp_holdForReview h hn hrest hQ
  next hm =>
  simp only [Bool.not_eq_true] at hg href hm
  exact wp_creditDeposit h hn hrest hbase (hrep (.of (.of hid hg href) hm)) hQ

/-- The payment a session settles: the copy it has loaded, else the row. -/
theorem wp_settlePayment {now : Time} {loaded : Option Payment} {r : Report}
    {Q : Option Payment × SettleOutcome → Session → Prop} (h : Dealing reported base .none rest s)
    (hp : ∀ row, s.db.findPayment r.publicId = .some row →
      Dealing reported base .none (loaded.getD row :: rest) s ∧
      (∀ q ∈ rest, q.publicId ≠ (loaded.getD row).publicId) ∧ loaded.getD row ∈ base.payments ∧
      r.publicId = (loaded.getD row).publicId ∧ (r.Matches (loaded.getD row) → reported (loaded.getD row)))
    (hQ : ∀ x s', Dealing reported base .none rest s' → Q x s') :
    (settlePayment now loaded r).wp Q (DepositErrors reported base) s := by
  simp only [settlePayment, lockPayment, wp_bind, wp_lockRow]
  cases hf : s.db.findPayment r.publicId with
  | none => exact hQ _ s h
  | some row =>
    obtain ⟨hd, hrest, hbase, hid, hrep⟩ := hp row hf
    simp only [Option.map_some, wp_bind]
    exact wp_settleLocked hd hrest hbase hid hrep fun x s₁ h₁ => hQ _ s₁ h₁

/-- What the gateway's answer on a loaded payment does. -/
theorem wp_applyAnswer {now : Time} {gateway source : String} {answer : Except String GatewayStatus}
    {Q : Option Payment × Option SettleOutcome → Session → Prop} (h : Dealing reported base .none (p :: rest) s)
    (hrest : ∀ q ∈ rest, q.publicId ≠ p.publicId) (hbase : p ∈ base.payments)
    (hrep : ∀ status, answer = .ok status → status.state = .paid → (status.report gateway source p).Matches p →
      reported p)
    (hQ : ∀ x s', Dealing reported base .none rest s' → Q x s') :
    (applyAnswer now gateway source p answer).wp Q (DepositErrors reported base) s := by
  have hless : Dealing reported base .none rest s :=
    h.mono fun _ ha => ⟨ha.books, ha.since, fun q hq => ha.rest q (by simp [hq])⟩
  unfold applyAnswer
  split
  · exact hQ _ s hless
  next status =>
  split
  · next hst =>
    simp only [wp_bind]
    exact wp_settlePayment hless (fun _ _ => ⟨h, hrest, hbase, rfl, hrep status rfl hst⟩) fun x s₁ h₁ => hQ _ s₁ h₁
  · split
    · next hpend =>
      have hn : p.status ≠ .paid := by rw [hpend]; decide
      simp only [wp_bind]
      refine wp_setPayment h (by simp) rfl hn hrest (fun db ha => ?_) fun s₁ h₁ => hQ _ s₁ h₁
      have hnil := ha.books.credits_nil (ha.rest p (by simp)) hn
      exact .unpaid hnil (by simp)
    · exact hQ _ s hless
  · exact hQ _ s hless

end

/-! ## The calls, from committed books -/

/-- A gateway that is not given is the configured one. -/
theorem gatewayOr_wp {gateway : Option String} {settings : Settings} {s : Session}
    {Q : Option String → Session → Prop} {E : Err → Session → Prop} (hE : ∀ message, E (.deposit message) s)
    (hnone : Q .none s) (hsome : Q (.some (gateway.getD "razorpay")) s) :
    (gatewayOr gateway settings).wp Q E s := by
  unfold gatewayOr
  cases gateway with
  | some name => exact hsome
  | none =>
    simp only [getGateway]
    split
    · exact hnone
    simp only [wp_bind, wp_require]
    split
    · exact hsome
    · exact hE _

section

variable {reported : Payment → Prop} {base : Db} {p : Payment}

theorem PaymentsAt.start (hb : PaymentBooks True .none base) {rest : List Payment}
    (hrest : ∀ q ∈ rest, q ∈ base.payments) : PaymentsAt reported base .none rest base := ⟨hb, .refl base, hrest⟩

theorem Dealing.start (hb : PaymentBooks True .none base) {rest : List Payment}
    (hrest : ∀ q ∈ rest, q ∈ base.payments) : Dealing reported base .none rest { db := base } :=
  .of rfl (.start hb hrest)

theorem wp_openCheckout {settings : Settings} {gateway : Option String} {checkout : Except String Checkout}
    {s : Session} (hst : s.staged = []) (h : PaymentsAt reported base .none [p] s.db) (hn : p.status ≠ .paid)
    (hfresh : ∀ q ∈ base.payments, q.publicId ≠ p.publicId) :
    (openCheckout settings gateway p checkout).wp (fun _ => Dealing reported base .none [])
      (DepositErrors reported base) s := by
  have hleft (sent) : Dealing reported base .none [] { s with sent := sent } := .of hst ⟨h.books, h.since, by simp⟩
  simp only [openCheckout, wp_bind]
  refine gatewayOr_wp (fun _ _ => hleft _) (fun _ => hleft _) ?_
  simp only [wp_bind, wp_call]
  cases checkout with
  | error e =>
    simp only [wp_bind]
    have h₁ : Dealing reported base .none [p] { s with sent := s.sent ++ [.createCheckout p.publicId p.amountPaise] } :=
      .of hst h
    refine wp_write_will h₁ (K := fun s' => PaymentsAt reported base .none [] s'.db) (fun s' ha _ => ?_)
      fun s₂ _ h₂ => wp_paymentsFlush h₂ fun s₃ hst₃ h₃ _ => .of hst₃ h₃
    refine ⟨ha.books.deleted (ha.rest p (by simp)) hn, ⟨ha.since.ledger, fun q hq => ?_⟩, by simp⟩
    obtain ⟨q', hq', hsame, hpaid⟩ := ha.since.payments q hq
    refine ⟨q', List.mem_filter.mpr ⟨hq', ?_⟩, hsame, hpaid⟩
    simpa [hsame.publicId] using hfresh q hq
  | ok checkout =>
    simp only [wp_bind]
    refine wp_setPayment (.of hst h) (by simp) rfl hn (by simp) (fun db ha => ?_) fun s₁ h₁ => ?_
    · exact (ha.books.settled p (ha.rest p (by simp))).update rfl (fun _ => hn) fun _ hc =>
        absurd (ha.books.credits_nil (ha.rest p (by simp)) hn) hc
    · exact wp_paymentsFlush h₁ fun s₂ hst₂ h₂ => h₂.dealing hst₂

theorem wp_createDeposit {now : Time} {publicId : String} {user : User} {amountPaise : Int} {settings : Settings}
    {idempotencyKey gateway : Option String} {checkout : Except String Checkout}
    (hb : PaymentBooks True .none base) :
    (createDeposit now publicId user amountPaise settings idempotencyKey gateway checkout).wp
      (fun _ => Dealing reported base .none []) (DepositErrors reported base) { db := base } := by
  have hstart : Dealing reported base .none [] { db := base } := .start hb (by simp)
  have hE (e : Err) (_ : True) : DepositErrors reported base e { db := base } := fun _ => hstart
  have hopen : assertPaymentsOpen.Reads fun _ => True := .bind killSwitches_reads fun _ => .require _ trivial
  simp only [createDeposit, wp_bind]
  generalize assertPaymentsOpen = check at hopen
  refine (Reads.require _ trivial).wp (fun _ => ?_) hE
  refine (Reads.require _ trivial).wp (fun _ => ?_) hE
  refine hopen.wp (fun _ => ?_) hE
  refine (Reads.require _ trivial).wp (fun _ => ?_) hE
  simp only [wp_query]
  split
  · exact hstart
  generalize hp : newInvoice _ _ _ _ _ _ = p
  have hn : p.status ≠ .paid := by rw [← hp]; simp [newInvoice]
  simp only [insertInvoice, wp_bind, wp_write, flush, wp_flushed, Txn.flushAll, List.nil_append]
  split
  · next db hdb =>
    split at hdb
    · next hadm =>
      cases hdb
      have hfresh : ∀ q ∈ base.payments, q.publicId ≠ p.publicId := by
        intro q hq
        have := List.all_eq_true.mp hadm q hq
        simp only [Bool.and_eq_true, bne_iff_ne] at this
        exact this.1
      have hat : PaymentsAt reported base .none [p] ((Stmt.insertPayment p).apply base) := by
        refine ⟨hb.inserted hfresh hn, ⟨⟨[], by simp [Stmt.insertPayment]⟩, fun q hq => ?_⟩, ?_⟩
        · exact ⟨q, List.mem_append_left _ hq, .refl q, fun _ => rfl⟩
        · simp [Stmt.insertPayment]
      split
      · exact wp_openCheckout rfl hat hn hfresh
      · have hless : PaymentsAt reported base .none [] ((Stmt.insertPayment p).apply base) :=
          ⟨hat.books, hat.since, by simp⟩
        exact hless.dealing rfl
    · cases hdb
  · exact .internal rfl

/-- What an event does to the payments. -/
theorem wp_applyEvent {now : Time} {gateway : String} {event : GatewayEvent} {s : Session}
    {Q : WebhookOutcome → Session → Prop} (hst : s.staged = []) (hp : s.db.payments = base.payments)
    (h : PaymentsAt reported base .none [] s.db)
    (hrep : ∀ pid p, event.kind = .paid → event.reference = .some pid → pid ≠ "" → p ∈ base.payments →
      (event.report gateway pid).Matches p → reported p)
    (hQ : ∀ x s', Dealing reported base .none [] s' → Q x s') :
    (applyEvent now gateway event).wp Q (DepositErrors reported base) s := by
  have hload {pid row} (hf : s.db.findPayment pid = .some row) :
      Dealing reported base .none [row] s ∧ row ∈ base.payments := by
    have hm := (Db.findPayment_mem hf).1
    exact ⟨.of hst ⟨h.books, h.since, by simpa using hm⟩, hp ▸ hm⟩
  unfold applyEvent
  split
  · next hk =>
    obtain ⟨pid, href⟩ : ∃ pid, event.reference = .some pid :=
      Option.ne_none_iff_exists'.mp fun hnone => by simp [hnone, truthy] at hk
    simp only [href, Option.getD_some, wp_bind]
    refine wp_settlePayment (.of hst h) (fun row hf => ?_) fun x s₁ h₁ => hQ _ s₁ h₁
    obtain ⟨hd, hbase⟩ := hload hf
    exact ⟨hd, by simp, hbase, (Db.findPayment_mem hf).2.symm,
      hrep pid row hk.1 href (truthy_some.mp (href ▸ hk.2)) hbase⟩
  split
  · simp only [expireEvent, lockPayment, wp_bind, wp_lockRow]
    cases hf : s.db.findPayment (event.reference.getD "") with
    | none => exact hQ _ s (.of hst h)
    | some p =>
      simp only [Option.map_some, Option.getD_none]
      split
      · next hpend =>
        have hn : p.status ≠ .paid := by rw [hpend]; decide
        simp only [wp_bind]
        refine wp_setPayment (hload hf).1 (by simp) rfl hn (by simp) (fun db ha => ?_) fun s₁ h₁ => hQ _ s₁ h₁
        have hnil := ha.books.credits_nil (ha.rest p (by simp)) hn
        exact .unpaid hnil (by simp)
      · exact hQ _ s (.of hst h)
  split
  · simp only [wp_bind]
    exact wp_paymentsAudit (.of hst h) fun s₁ h₁ => hQ _ s₁ h₁
  · exact hQ _ s (.of hst h)

theorem wp_handleWebhookEvent {now : Time} {gateway : String} {event : GatewayEvent}
    (hb : PaymentBooks True .none base)
    (hrep : ∀ pid p, event.kind = .paid → event.reference = .some pid → pid ≠ "" → p ∈ base.payments →
      (event.report gateway pid).Matches p → reported p) :
    (handleWebhookEvent now gateway event).wp (fun _ => Dealing reported base .none [])
      (DepositErrors reported base) { db := base } := by
  have hat : PaymentsAt reported base .none [] base := .start hb (by simp)
  simp only [handleWebhookEvent, wp_bind, wp_savepoint]
  split
  · simp only [Bool.not_true, Bool.false_eq_true, if_false, wp_bind]
    refine wp_applyEvent rfl rfl (hat.quiet rfl rfl) hrep fun x s₁ h₁ => ?_
    exact wp_paymentsQuiet h₁ (fun _ => ⟨rfl, rfl⟩) fun s₂ h₂ => h₂
  · exact hat.dealing rfl

theorem wp_reconcilePending {now : Time} {pass : Pass} (hb : PaymentBooks True .none base)
    (hrep : ∀ p ∈ pass.rows now base, ∀ status, pass.answers p.publicId = .ok status → status.state = .paid →
      (status.report pass.gateway "reconcile" p).Matches p → reported p) :
    (reconcilePending now pass).wp (fun _ => Dealing reported base .none []) (DepositErrors reported base)
      { db := base } := by
  simp only [reconcilePending, wp_bind, wp_query]
  generalize hrows : pass.rows now base = rows at hrep
  have hsub : rows.Sublist base.payments :=
    hrows ▸ (List.take_sublist _ _).trans List.filter_sublist
  have hids := hb.ids.sublist (hsub.map _)
  -- the rows left are as they were loaded, and each turn deals with the first of them
  let I (rest : List Payment) (s : Session) : Prop :=
    Dealing reported base .none rest s ∧ (rest.map (·.publicId)).Nodup ∧ ∀ q ∈ rest, q ∈ rows
  have hstart : I rows { db := base } := ⟨.start hb fun q hq => hsub.subset hq, hids, fun _ hq => hq⟩
  refine wp_mono (wp_collect hstart fun p rest s hI => ?_) (fun _ s hI => hI.1) fun _ _ he => he
  obtain ⟨h, hnd, hm⟩ := hI
  simp only [List.map_cons, List.nodup_cons] at hnd
  have hrest : ∀ q ∈ rest, q.publicId ≠ p.publicId := fun q hq he => hnd.1 (he ▸ List.mem_map_of_mem hq)
  simp only [reconcilePayment, askGateway, wp_bind, wp_call]
  refine wp_applyAnswer h hrest (hsub.subset (hm p (by simp))) (hrep p (hm p (by simp))) fun x s₁ h₁ => ?_
  exact ⟨h₁, hnd.2, fun q hq => hm q (by simp [hq])⟩

theorem wp_manualConfirm {now : Time} {publicId actor : String} (hb : PaymentBooks True .none base)
    (hrep : ∀ p, base.findPayment publicId = .some p → (p.manualReport actor).Matches p → reported p) :
    (manualConfirm now publicId actor).wp (fun _ => Dealing reported base .none []) (DepositErrors reported base)
      { db := base } := by
  have hstart : Dealing reported base .none [] { db := base } := .start hb (by simp)
  simp only [manualConfirm, wp_bind, wp_query]
  cases hf : base.findPayment publicId with
  | none => exact hstart
  | some p =>
    have hm := (Db.findPayment_mem hf).1
    simp only [wp_bind]
    refine wp_settlePayment hstart (fun _ _ => ?_) fun _ _ h₁ => h₁
    exact ⟨.start hb (by simpa using hm), by simp, hm, rfl, hrep p hf⟩

theorem wp_checkPayment {now : Time} {publicId : String} {userId : Int} {settings : Settings}
    {gateway : Option String} {answer : Except String GatewayStatus} (hb : PaymentBooks True .none base)
    (hrep : ∀ p status, base.findPayment publicId = .some p → p.userId = userId → p.isCheckable = true →
      answer = .ok status → status.state = .paid →
      (status.report (gateway.getD "razorpay") "user-check" p).Matches p → reported p) :
    (checkPayment now publicId userId settings gateway answer).wp (fun _ => Dealing reported base .none [])
      (DepositErrors reported base) { db := base } := by
  have hstart : Dealing reported base .none [] { db := base } := .start hb (by simp)
  simp only [checkPayment, wp_bind, wp_query]
  cases hf : (base.findPayment publicId).filter (·.userId = userId) with
  | none => exact hstart
  | some p =>
    obtain ⟨hf, hown⟩ := Option.filter_eq_some_iff.mp hf
    have hm := (Db.findPayment_mem hf).1
    simp only
    split
    · next hcheck =>
      simp only [wp_bind]
      refine gatewayOr_wp (fun _ _ => hstart) hstart ?_
      simp only [askGateway, wp_bind, wp_call]
      refine wp_applyAnswer (.start hb (by simpa using hm)) (by simp) hm (fun status ha hpaid => ?_) fun _ _ h₁ => h₁
      exact hrep p status hf (by simpa using hown) hcheck ha hpaid
    · exact hstart

theorem wp_mockPay {now : Time} {publicId : String} {userId : Int} {settings : Settings}
    (hb : PaymentBooks True .none base)
    (hrep : ∀ p, settings.mockPaymentsAllowed = true → base.findPayment publicId = .some p → p.userId = userId →
      p.method = "mock" → (p.mockReport userId).Matches p → reported p) :
    (mockPay now publicId userId settings).wp (fun _ => Dealing reported base .none [])
      (DepositErrors reported base) { db := base } := by
  have hstart : Dealing reported base .none [] { db := base } := .start hb (by simp)
  simp only [mockPay, wp_bind, wp_require]
  split
  case isFalse => exact .internal rfl
  next hallowed =>
  simp only [wp_query]
  cases hf : (base.findPayment publicId).filter fun p => p.userId = userId ∧ p.method = "mock" with
  | none => exact .internal rfl
  | some p =>
    obtain ⟨hf, hown⟩ := Option.filter_eq_some_iff.mp hf
    simp only [decide_eq_true_eq] at hown
    have hm := (Db.findPayment_mem hf).1
    simp only [wp_bind]
    refine wp_settlePayment hstart (fun _ _ => ?_) fun _ _ h₁ => h₁
    exact ⟨.start hb (by simpa using hm), by simp, hm, rfl, hrep p hallowed hf hown.1 hown.2⟩

end

end Falaron
