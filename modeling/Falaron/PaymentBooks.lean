/-
The books of the deposits: what every committed database of the payment
service satisfies.

A payment has been credited once, exactly and to its owner, or not at all;
only one that has been credited is paid. That one that has been credited is
paid as well is asked for when `strict`, and while a call is settling a
payment it may be off for this payment alone (`ex`).
-/
import Falaron.Payments

namespace Falaron

/-- The payment an entry is about. -/
def LedgerEntry.paymentRef (e : LedgerEntry) : Option String :=
  if e.referenceType = .some "payment" then e.referenceId else .none

/-- The payment a ledger key belongs to. -/
def Key.paymentRef : Key → Option String
  | .deposit p => .some p
  | _ => .none

theorem Key.paymentRef_iff {k : Key} {p : String} : k.paymentRef = .some p ↔ k = .deposit p := by
  cases k <;> simp [paymentRef]

/-- `q` is `p` but for what may be set on it later. -/
def Payment.SameInvoice (p q : Payment) : Prop :=
  q = { p with
    status := q.status
    providerRef := q.providerRef
    checkoutUrl := q.checkoutUrl
    failureReason := q.failureReason
    paidAt := q.paidAt }

namespace Payment.SameInvoice

variable {p q r : Payment}

theorem refl (p : Payment) : p.SameInvoice p := rfl

theorem trans (h : p.SameInvoice q) (h' : q.SameInvoice r) : p.SameInvoice r := by
  unfold SameInvoice at *
  rw [h'] at *
  rw [h]

theorem publicId (h : p.SameInvoice q) : q.publicId = p.publicId := (congrArg Payment.publicId h :)
theorem userId (h : p.SameInvoice q) : q.userId = p.userId := (congrArg Payment.userId h :)
theorem amountPaise (h : p.SameInvoice q) : q.amountPaise = p.amountPaise := (congrArg Payment.amountPaise h :)
theorem method (h : p.SameInvoice q) : q.method = p.method := (congrArg Payment.method h :)
theorem currency (h : p.SameInvoice q) : q.currency = p.currency := (congrArg Payment.currency h :)

end Payment.SameInvoice

/-- The entry credits exactly the invoice, to its owner, under its deposit key. -/
structure LedgerEntry.Settles (e : LedgerEntry) (p : Payment) : Prop where
  amount : e.amountPaise = p.amountPaise
  owner : e.userId = p.userId
  key : e.idempotencyKey = .deposit p.publicId

theorem LedgerEntry.Settles.same {e : LedgerEntry} {p q : Payment} (h : e.Settles p) (hs : p.SameInvoice q) :
    e.Settles q :=
  ⟨h.amount.trans hs.amountPaise.symm, h.owner.trans hs.userId.symm, hs.publicId ▸ h.key⟩

namespace Db

/-- The credits made for a payment. -/
def depositCredits (db : Db) (publicId : String) : List LedgerEntry :=
  db.ledger.filter fun e => e.entryType == .credit && e.paymentRef == .some publicId

/-- What the ledger and the row say of a payment fits together. -/
inductive Settled (strict : Prop) (db : Db) (p : Payment) : Prop
  | unpaid : db.depositCredits p.publicId = [] → p.status ≠ .paid → Settled strict db p
  | credited {e} : db.depositCredits p.publicId = [e] → e.Settles p → (strict → p.status = .paid) →
      Settled strict db p

end Db

structure PaymentBooks (strict : Prop) (ex : Option String) (db : Db) : Prop where
  ids : (db.payments.map (·.publicId)).Nodup
  refs : ∀ e ∈ db.ledger, e.idempotencyKey.paymentRef = e.paymentRef ∧
    (e.paymentRef.isSome → e.entryType = .credit)
  known : ∀ e ∈ db.ledger, ∀ pid, e.paymentRef = .some pid → ∃ p ∈ db.payments, p.publicId = pid
  settled : ∀ p ∈ db.payments, db.Settled (strict ∧ ex ≠ .some p.publicId) p
  credited : ∀ pid, ex = .some pid → db.depositCredits pid ≠ []

/-! ## Looking payments up -/

namespace Db

variable {db db' : Db} {p : Payment} {pid : String} {e : LedgerEntry}

theorem findPayment_mem (h : db.findPayment pid = .some p) : p ∈ db.payments ∧ p.publicId = pid :=
  ⟨List.mem_of_find?_eq_some h, by simpa using List.find?_some h⟩

theorem findPayment_of_mem (hn : (db.payments.map (·.publicId)).Nodup) (h : p ∈ db.payments) :
    db.findPayment p.publicId = .some p := find?_name hn h

theorem depositCredits_congr (h : db'.ledger = db.ledger) : db'.depositCredits pid = db.depositCredits pid := by
  simp only [depositCredits, h]

theorem depositCredits_append {es : List LedgerEntry} (h : db'.ledger = db.ledger ++ es) :
    db'.depositCredits pid = db.depositCredits pid ++
      es.filter fun e => e.entryType == .credit && e.paymentRef == .some pid := by
  simp only [depositCredits, h, List.filter_append]

theorem depositCredits_other (h : e.paymentRef ≠ .some pid) :
    (db.posted e).depositCredits pid = db.depositCredits pid := by
  rw [depositCredits_append rfl]
  simp [h]

theorem depositCredits_deposit (h : e.paymentRef = .some pid) (ht : e.entryType = .credit) :
    (db.posted e).depositCredits pid = db.depositCredits pid ++ [e] := by
  rw [depositCredits_append rfl]
  simp [h, ht]

theorem mem_depositCredits : e ∈ db.depositCredits pid ↔
    e ∈ db.ledger ∧ e.entryType = .credit ∧ e.paymentRef = .some pid := by
  simp [depositCredits]

/-- Only what the ledger holds for the payment counts. -/
theorem Settled.congr {strict : Prop} (h : db.Settled strict p)
    (hl : db'.depositCredits p.publicId = db.depositCredits p.publicId) : db'.Settled strict p := by
  cases h with
  | unpaid hc hs => exact .unpaid (hl.trans hc) hs
  | credited hc he hs => exact .credited (hl.trans hc) he hs

/-- The payment's row changes. -/
theorem Settled.update {strict strict' : Prop} {q : Payment} (h : db.Settled strict p) (hq : p.SameInvoice q)
    (hn : db.depositCredits p.publicId = [] → q.status ≠ .paid)
    (hc : strict' → db.depositCredits p.publicId ≠ [] → q.status = .paid) : db.Settled strict' q := by
  cases h with
  | unpaid h₁ _ => exact .unpaid (hq.publicId ▸ h₁) (hn h₁)
  | credited h₁ he _ =>
    exact .credited (hq.publicId ▸ h₁) (he.same hq) fun hs => hc hs (by rw [h₁]; exact List.cons_ne_nil _ _)

end Db

/-! ## What a change of the tables does to the books -/

namespace PaymentBooks

variable {strict : Prop} {ex : Option String} {db db' : Db} {p : Payment} {pid : String} {e : LedgerEntry}

theorem congr (h : PaymentBooks strict ex db) (hp : db'.payments = db.payments) (hl : db'.ledger = db.ledger) :
    PaymentBooks strict ex db' where
  ids := hp ▸ h.ids
  refs := hl ▸ h.refs
  known := by rw [hl, hp]; exact h.known
  settled q hq := (h.settled q (hp ▸ hq)).congr (Db.depositCredits_congr hl)
  credited pid hpid := by rw [Db.depositCredits_congr hl]; exact h.credited pid hpid

theorem mono {strict' : Prop} (h : PaymentBooks strict ex db) (hs : strict' → strict) :
    PaymentBooks strict' ex db where
  ids := h.ids
  refs := h.refs
  known := h.known
  settled q hq := by
    cases h.settled q hq with
    | unpaid hc hn => exact .unpaid hc hn
    | credited hc he hp => exact .credited hc he fun h' => hp ⟨hs h'.1, h'.2⟩
  credited := h.credited

/-- A payment's deposit key is in the ledger exactly when the payment has been credited. -/
theorem findEntry_deposit (h : PaymentBooks strict ex db) (pid : String) :
    db.findEntry (.deposit pid) = .none ↔ db.depositCredits pid = [] := by
  simp only [Db.findEntry, List.find?_eq_none, beq_iff_eq, Db.depositCredits, List.filter_eq_nil_iff,
    Bool.and_eq_true, not_and]
  refine forall_congr' fun e => ⟨fun hk he hc hr => ?_, fun hc he hk => ?_⟩
  · have href := (h.refs e he).1
    exact hk he (Key.paymentRef_iff.mp (href.trans hr))
  · obtain ⟨href, ht⟩ := h.refs e he
    rw [hk] at href
    exact hc he (ht (href ▸ rfl)) href.symm

theorem paid_iff (h : PaymentBooks True .none db) (hp : p ∈ db.payments) :
    p.status = .paid ↔ ∃ e, db.depositCredits p.publicId = [e] ∧ e.Settles p := by
  cases h.settled p hp with
  | unpaid hc hs => simp [hc, hs]
  | credited hc he hs => simp [hc, he, hs]

theorem credits_nil (h : PaymentBooks True .none db) (hp : p ∈ db.payments) (hs : p.status ≠ .paid) :
    db.depositCredits p.publicId = [] := by
  cases h.settled p hp with
  | unpaid hc _ => exact hc
  | credited _ _ hpaid => exact absurd (hpaid (by simp)) hs

theorem posted_other (h : PaymentBooks strict ex db) (hr : e.paymentRef = .none)
    (hk : e.idempotencyKey.paymentRef = .none) : PaymentBooks strict ex (db.posted e) where
  ids := h.ids
  refs e' he' := by
    rcases List.mem_append.mp he' with he' | he'
    · exact h.refs e' he'
    · obtain rfl := List.mem_singleton.mp he'
      exact ⟨hk.trans hr.symm, fun hs => by simp [hr] at hs⟩
  known e' he' pid hp := by
    rcases List.mem_append.mp he' with he' | he'
    · exact h.known e' he' pid hp
    · obtain rfl := List.mem_singleton.mp he'
      simp [hr] at hp
  settled q hq := (h.settled q hq).congr (Db.depositCredits_other (by simp [hr]))
  credited pid hpid := by rw [Db.depositCredits_other (by simp [hr])]; exact h.credited pid hpid

/-- A payment is credited: until its row says so, the books are open on it. -/
theorem posted_deposit (h : PaymentBooks strict .none db) (hp : p ∈ db.payments)
    (hn : db.depositCredits p.publicId = []) (he : e.Settles p) (ht : e.entryType = .credit)
    (hr : e.paymentRef = .some p.publicId) : PaymentBooks strict (.some p.publicId) (db.posted e) where
  ids := h.ids
  refs e' he' := by
    rcases List.mem_append.mp he' with he' | he'
    · exact h.refs e' he'
    · obtain rfl := List.mem_singleton.mp he'
      exact ⟨by rw [he.key, hr]; rfl, fun _ => ht⟩
  known e' he' pid hpid := by
    rcases List.mem_append.mp he' with he' | he'
    · exact h.known e' he' pid hpid
    · obtain rfl := List.mem_singleton.mp he'
      exact ⟨p, hp, Option.some.inj (hr.symm.trans hpid)⟩
  settled q hq := by
    by_cases hid : q.publicId = p.publicId
    · obtain rfl := List.inj_on_of_nodup_map h.ids hq hp hid
      refine .credited (e := e) ?_ he fun hs => absurd rfl hs.2
      rw [Db.depositCredits_deposit hr ht, hn, List.nil_append]
    · have hne : e.paymentRef ≠ .some q.publicId := fun h' => hid (Option.some.inj (h'.symm.trans hr))
      cases (h.settled q hq).congr (Db.depositCredits_other hne) with
      | unpaid hc hs => exact .unpaid hc hs
      | credited hc he' hs => exact .credited hc he' fun h' => hs ⟨h'.1, by simp⟩
  credited pid hpid := by
    obtain rfl := Option.some.inj hpid
    rw [Db.depositCredits_deposit hr ht, hn]
    exact List.cons_ne_nil _ _

/-- The row of one payment changes, and the books close on it. -/
theorem updated (h : PaymentBooks strict ex db) {f : Payment → Payment} (hex : ∀ q, q ≠ pid → ex ≠ .some q)
    (hf : ∀ p ∈ db.payments, p.publicId = pid → p.SameInvoice (f p) ∧ db.Settled strict (f p)) :
    PaymentBooks strict .none (db.updatePayment pid f) := by
  have hid : (db.updatePayment pid f).payments.map (·.publicId) = db.payments.map (·.publicId) := by
    simp only [Db.updatePayment, List.map_map]
    refine List.map_congr_left fun p hp => ?_
    simp only [Function.comp_apply]
    split
    · next h' => exact (hf p hp h').1.publicId
    · rfl
  refine ⟨hid ▸ h.ids, h.refs, fun e he pid' hpid => ?_, fun q hq => ?_, fun _ hq => by cases hq⟩
  · obtain ⟨p, hp, hpp⟩ := h.known e he pid' hpid
    have hm : pid' ∈ (db.updatePayment pid f).payments.map (·.publicId) :=
      hid ▸ List.mem_map.mpr ⟨p, hp, hpp⟩
    exact List.mem_map.mp hm
  · obtain ⟨p, hp, rfl⟩ := List.mem_map.mp hq
    by_cases hpid : p.publicId = pid
    · rw [if_pos hpid]
      have hledger : (db.updatePayment pid f).depositCredits (f p).publicId = db.depositCredits (f p).publicId := rfl
      cases (hf p hp hpid).2.congr hledger with
      | unpaid hc hs => exact .unpaid hc hs
      | credited hc he hs => exact .credited hc he fun h' => hs h'.1
    · rw [if_neg hpid]
      have hledger : (db.updatePayment pid f).depositCredits p.publicId = db.depositCredits p.publicId := rfl
      cases (h.settled p hp).congr hledger with
      | unpaid hc hs => exact .unpaid hc hs
      | credited hc he hs => exact .credited hc he fun h' => hs ⟨h'.1, hex _ hpid⟩

/-- A new invoice. -/
theorem inserted (h : PaymentBooks strict ex db) (hnew : ∀ q ∈ db.payments, q.publicId ≠ p.publicId)
    (hs : p.status ≠ .paid) : PaymentBooks strict ex { db with payments := db.payments ++ [p] } where
  ids := by
    simp only [List.map_append, List.map_cons, List.map_nil, List.nodup_append, h.ids, true_and]
    simpa using hnew
  refs := h.refs
  known e he pid hp := by
    obtain ⟨q, hq, hqp⟩ := h.known e he pid hp
    exact ⟨q, by simp [hq], hqp⟩
  settled q hq := by
    rcases List.mem_append.mp hq with hq | hq
    · exact (h.settled q hq).congr rfl
    · obtain rfl := List.mem_singleton.mp hq
      refine .unpaid ?_ hs
      refine List.filter_eq_nil_iff.mpr fun e he hc => ?_
      simp only [Bool.and_eq_true, beq_iff_eq] at hc
      obtain ⟨q', hq', hid⟩ := h.known e he _ hc.2
      exact hnew q' hq' hid
  credited := h.credited

/-- An invoice that was not paid goes again. -/
theorem deleted (h : PaymentBooks True .none db) (hp : p ∈ db.payments) (hs : p.status ≠ .paid) :
    PaymentBooks True .none { db with payments := db.payments.filter (·.publicId != p.publicId) } where
  ids := h.ids.sublist (List.filter_sublist.map _)
  refs := h.refs
  known e he pid hpid := by
    obtain ⟨q, hq, hid⟩ := h.known e he pid hpid
    refine ⟨q, List.mem_filter.mpr ⟨hq, ?_⟩, hid⟩
    by_cases hqp : q.publicId = p.publicId
    · -- its credits would count among those of `p`
      have hm : e ∈ db.depositCredits p.publicId :=
        Db.mem_depositCredits.mpr ⟨he, (h.refs e he).2 (by simp [hpid]), by rw [hpid, ← hid, hqp]⟩
      rw [h.credits_nil hp hs] at hm
      cases hm
    · simpa using hqp
  settled q hq := (h.settled q (List.mem_of_mem_filter hq)).congr rfl
  credited := h.credited

end PaymentBooks

end Falaron
