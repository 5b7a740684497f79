/-
The commission on a referred user's first deposit.

The query that decides whether a deposit is the first counts the deposits
that are paid, and the session does not flush on its own: the one being
settled is not among them, and the code refuses from the second other one on.
So a deposit that has exactly one paid deposit before it may still earn, if
none has earned yet. In every run in which no such deposit is settled, what
has earned is the first one; that it earns once per buyer, and exactly the
share, holds of every run.
-/
import Falaron.PaymentRun
import Falaron.Routine

namespace Falaron

open Txn.Prog hiding pure

/-- The credits of deposits on a user's wallet, in order. -/
def depositsOf (u : Int) (ledger : List LedgerEntry) : List LedgerEntry :=
  ledger.filter fun e => e.userId == u && e.paymentRef.isSome

/-- The commissions on the deposits of a user. -/
def depositCommissions (u : Int) (ledger : List LedgerEntry) : List LedgerEntry :=
  ledger.filter fun e => e.idempotencyKey == .refdep u

/-- The entry is the share of the deposit `d`. -/
structure LedgerEntry.IsShareOf (e d : LedgerEntry) : Prop where
  credit : e.entryType = .credit
  reference : e.referenceType = .some "referral" ∧ e.referenceId = d.paymentRef
  amount : e.amountPaise = d.amountPaise * referralDepositCommissionPercent / 100

/-- What the ledger says of the commissions on deposits. With `first`, they
are on first deposits. -/
structure CommissionBooks (first : Prop) (ledger : List LedgerEntry) : Prop where
  once : ∀ u, (depositCommissions u ledger).length ≤ 1
  shares : ∀ u, ∀ e ∈ depositCommissions u ledger, ∃ d ∈ depositsOf u ledger, e.IsShareOf d ∧
    (first → (depositsOf u ledger).head? = some d)

namespace Db

variable (db : Db) (u : Int)

/-- Who earns on what the user does: who referred him, if it is someone else who exists. -/
def referrer : Option User :=
  ((db.users u).bind fun buyer => buyer.referredBy.bind db.users).filter (·.telegramId ≠ u)

/-- The paid deposits of a user. -/
def paidDeposits : List Payment := db.payments.filter fun p => p.userId == u && p.status == .paid

/-- A deposit that is not the first and would earn all the same: the buyer
has one paid deposit, which has not earned. -/
structure LateDeposit (p : Payment) : Prop where
  referred : db.referrer p.userId ≠ none
  second : (db.paidDeposits p.userId).length = 1
  unearned : db.findEntry (.refdep p.userId) = none
  earns : 0 < commissionPaise p.amountPaise referralDepositCommissionPercent

end Db

/-! ## The ledger -/

section

variable {u : Int} {l es : List LedgerEntry} {e d : LedgerEntry} {first : Prop}

theorem depositsOf_append : depositsOf u (l ++ es) = depositsOf u l ++ depositsOf u es := List.filter_append ..

theorem depositCommissions_append :
    depositCommissions u (l ++ es) = depositCommissions u l ++ depositCommissions u es := List.filter_append ..

theorem mem_depositsOf : e ∈ depositsOf u l ↔ e ∈ l ∧ e.userId = u ∧ e.paymentRef.isSome := by
  simp [depositsOf]

theorem depositCommissions_nil {db : Db} : depositCommissions u db.ledger = [] ↔ db.findEntry (.refdep u) = none := by
  simp [depositCommissions, Db.findEntry]

/-- Entries that are no commissions on deposits leave the commissions as they are. -/
theorem CommissionBooks.append (h : CommissionBooks first l)
    (hes : ∀ e ∈ es, ∀ u, e.idempotencyKey ≠ .refdep u) : CommissionBooks first (l ++ es) := by
  have hnil (u : Int) : depositCommissions u es = [] := by
    simp only [depositCommissions, List.filter_eq_nil_iff, beq_iff_eq]
    exact fun e he => hes e he u
  refine ⟨fun u => ?_, fun u e he => ?_⟩
  · rw [depositCommissions_append, hnil, List.append_nil]
    exact h.once u
  · rw [depositCommissions_append, hnil, List.append_nil] at he
    obtain ⟨d, hd, hshare, hfirst⟩ := h.shares u e he
    rw [depositsOf_append]
    refine ⟨d, List.mem_append_left _ hd, hshare, fun hf => ?_⟩
    rw [List.head?_append, hfirst hf]
    rfl

/-- A commission on the deposit just made. -/
theorem CommissionBooks.earned (h : CommissionBooks first (l ++ [d])) (hkey : e.idempotencyKey = .refdep u)
    (hfresh : depositCommissions u (l ++ [d]) = []) (hd : d ∈ depositsOf u [d]) (he : e.IsShareOf d)
    (hfirst : first → depositsOf u l = []) : CommissionBooks first (l ++ [d] ++ [e]) := by
  have hone (v : Int) : depositCommissions v [e] = if v = u then [e] else [] := by
    by_cases hv : v = u
    · simp [depositCommissions, hkey, hv]
    · simp [depositCommissions, hkey, hv, Ne.symm hv]
  have hgrow (v : Int) {d'} (hd' : (depositsOf v (l ++ [d])).head? = some d') :
      (depositsOf v (l ++ [d] ++ [e])).head? = some d' := by
    rw [depositsOf_append, List.head?_append, hd']
    rfl
  refine ⟨fun v => ?_, fun v e' he' => ?_⟩
  · rw [depositCommissions_append, hone]
    split
    · next hv => rw [hv, hfresh]; exact le_refl 1
    · simpa using h.once v
  · rw [depositCommissions_append, hone] at he'
    rcases List.mem_append.mp he' with he' | he'
    · obtain ⟨d', hd', hshare, hf⟩ := h.shares v e' he'
      refine ⟨d', ?_, hshare, fun hfirst => hgrow v (hf hfirst)⟩
      rw [depositsOf_append]
      exact List.mem_append_left _ hd'
    · split at he'
      · next hv =>
        obtain rfl := List.mem_singleton.mp he'
        subst hv
        refine ⟨d, ?_, he, fun hf => hgrow v ?_⟩
        · rw [depositsOf_append, depositsOf_append]
          exact List.mem_append_left _ (List.mem_append_right _ hd)
        · rw [depositsOf_append, hfirst hf, List.nil_append]
          have hself : depositsOf v [d] = [d] := by
            refine List.filter_eq_self.mpr fun d' hd' => ?_
            rw [List.mem_singleton.mp hd']
            exact (List.mem_filter.mp hd).2
          rw [hself]
          rfl
      · cases he'

/-- Without paid deposits there are no credits of deposits. -/
theorem depositsOf_nil {db : Db} (hb : PaymentBooks True .none db) (h : db.paidDeposits u = []) :
    depositsOf u db.ledger = [] := by
  refine List.filter_eq_nil_iff.mpr fun e he hc => ?_
  simp only [Bool.and_eq_true, beq_iff_eq] at hc
  obtain ⟨pid, hpid⟩ := Option.isSome_iff_exists.mp hc.2
  obtain ⟨p, hp, rfl⟩ := hb.known e he pid hpid
  have hcred : e ∈ db.depositCredits p.publicId :=
    Db.mem_depositCredits.mpr ⟨he, (hb.refs e he).2 hc.2, hpid⟩
  cases hb.settled p hp with
  | unpaid hnil _ =>
    rw [hnil] at hcred
    cases hcred
  | credited hone hsettles hpaid =>
    rw [hone] at hcred
    obtain rfl := List.mem_singleton.mp hcred
    have hmem : p ∈ db.paidDeposits u := by
      refine List.mem_filter.mpr ⟨hp, ?_⟩
      simp [← hsettles.owner, hc.1, hpaid ⟨trivial, nofun⟩]
    rw [h] at hmem
    cases hmem

end

/-! ## A settlement -/

/-- A statement that makes no entry. -/
def Stmt.NoEntry (w : Stmt) : Prop := ∀ db, (w.apply db).ledger = db.ledger

/-- The commissions are right, and no entry is staged. -/
abbrev Session.Commissions (first : Prop) (s : Session) : Prop :=
  s.Kept (fun db => CommissionBooks first db.ledger) Stmt.NoEntry

theorem Stmt.NoEntry.keeps {first : Prop} {w : Stmt} (h : w.NoEntry) :
    w.Keeps fun db => CommissionBooks first db.ledger := by
  intro db hdb
  rwa [h db]

/-- An error after which the caller may commit leaves the commissions right. -/
def CommissionErrors (first : Prop) (e : Err) (s : Session) : Prop := e.isDeposit = true → Session.Commissions first s

section

variable {first : Prop} {s : Session} {a : Db} {p : Payment} {now : Time} {r : Report}

/-- A program without entries leaves the commissions as they are. -/
theorem wp_noEntry {α : Type} {m : M α} (hm : m.Writes Stmt.NoEntry) (h : Session.Commissions first s)
    {Q : α → Session → Prop} (hQ : ∀ x s', Session.Commissions first s' → Q x s') : m.wp Q (CommissionErrors first) s :=
  wp_mono (hm.wp (fun _ hw => hw.keeps) h) hQ fun _ _ h' _ => h'

theorem setPayment_noEntry (f : Payment → Payment) : (setPayment p f).Writes Stmt.NoEntry :=
  setPayment_writes fun _ => rfl

theorem audit_noEntry (now : Time) (actor action : String) (target reason : Option String) :
    (audit now actor action target reason).Writes Stmt.NoEntry := audit_writes (fun _ _ => rfl) _ _ _ _ _

theorem holdForReview_noEntry (now : Time) (r : Report) : (holdForReview now p r).Writes Stmt.NoEntry :=
  .bind (setPayment_noEntry _) fun _ => .bind (audit_noEntry _ _ _ _ _) fun _ => .pure _

theorem expireEvent_noEntry (publicId : String) : (expireEvent publicId).Writes Stmt.NoEntry :=
  expireEvent_writes fun _ _ _ _ => rfl

theorem Db.SameHouse.referrer {b : Db} (h : a.SameHouse b) {buyer referrer : User} {u id : Int}
    (hbuyer : a.users u = .some buyer) (hid : buyer.referredBy = .some id) (hrow : b.users id = .some referrer)
    (hne : referrer.telegramId ≠ u) : a.referrer u ≠ none := by
  obtain ⟨referrer', hrow', htid, -⟩ := h.symm.user hrow
  have hsome : a.referrer u = .some referrer' := by
    simp only [Db.referrer, hbuyer, hid, hrow', Option.bind_some]
    exact Option.filter_eq_some_iff.mpr ⟨rfl, by simpa [htid] using hne⟩
  simp [hsome]

/-- The deposit is credited; its commission follows when no paid deposit comes
before it, or one that has not earned. -/
theorem wp_creditDeposit_commissions (h : Session.Commissions first s) (hhouse : a.SameHouse s.db)
    (hf : Txn.flushAll s.staged s.db = .some a) (hb : PaymentBooks True .none a) (hkeyed : a.Keyed)
    (hp : p ∈ a.payments) (hn : p.status ≠ .paid) (hlate : first → ¬ a.LateDeposit p) :
    (creditDeposit now p r).wp (fun _ => Session.Commissions first) (CommissionErrors first) s := by
  have ha : CommissionBooks first a.ledger := h.will (fun _ hw => hw.keeps) hf
  simp only [creditDeposit, wp_bind, wp_query]
  cases hu : s.db.users p.userId with
  | none =>
    simp only [wp_bind]
    exact wp_noEntry (setPayment_noEntry _) h fun _ _ h' => h'
  | some user =>
    obtain ⟨buyer, hbuyer, htid', hreferred⟩ := hhouse.symm.user hu
    have htid : user.telegramId = p.userId := htid'.symm.trans (hkeyed _ _ hbuyer)
    simp only [wp_bind, credit]
    refine wp_post hf (fun _ hd => by cases hd) (fun err herr hd => ?_) (fun e _ he => ?_) fun e he => ?_
    · cases herr with
      | draft _ _ hdraft => cases hdraft
      | _ => cases hd
    · -- the deposit is not credited yet
      have hnil := (hb.findEntry_deposit _).mpr (hb.credits_nil hp hn)
      rw [show Key.orElse (.some (.deposit p.publicId)) _ = .deposit p.publicId from rfl, hnil] at he
      cases he
    obtain ⟨_, d, _, hd, rfl, -⟩ := he.drafted
    obtain rfl := Except.ok.inj hd
    generalize hentry : p.deposit.entry _ _ _ = entry
    have hentryKey : entry.idempotencyKey = .deposit p.publicId := by rw [← hentry]; rfl
    have hdep : entry ∈ depositsOf p.userId [entry] := by
      rw [mem_depositsOf, ← hentry]
      exact ⟨List.mem_singleton_self _, rfl, rfl⟩
    have hposted : CommissionBooks first (a.ledger ++ [entry]) := by
      refine ha.append fun e he u hkey => ?_
      rw [List.mem_singleton.mp he, hentryKey] at hkey
      cases hkey
    simp only [setPayment, wp_bind, wp_write, wp_pure', List.nil_append]
    generalize hw : Stmt.updatePayment _ _ = w
    have hwquiet : w.NoEntry := hw ▸ fun _ => rfl
    have hwhouse : w.Routine := hw ▸ .updatePayment _ _
    have hend (s' : Session) (h' : Session.Commissions first s') :
        (audit now r.actor "payment.credited" (.some p.publicId) .none).wp
          (fun _ s' => Session.Commissions first s') (CommissionErrors first) s' :=
      wp_noEntry (audit_noEntry _ _ _ _ _) h' fun _ _ h'' => h''
    have hskip : Session.Commissions first { s with db := a.posted entry, staged := [w] } :=
      ⟨hposted, by simpa using hwquiet⟩
    refine wp_creditDepositCommission_share (hend _ hskip) fun id referrer hid hrow hne _ hearns hcount => ?_
    have hflush : Txn.flushAll [w] (a.posted entry) = .some (w.apply (a.posted entry)) := by
      rw [← hw]; rfl
    refine wp_post hflush (fun _ hd => by cases hd) (fun err herr hd => ?_) (fun e _ _ => ?_) fun e he => ?_
    · cases herr with
      | draft _ _ hdraft => cases hdraft
      | _ => cases hd
    · refine hend _ ⟨?_, by simp⟩
      show CommissionBooks first (w.apply (a.posted entry)).ledger
      rw [hwquiet]
      exact hposted
    · refine hend _ ⟨?_, by simp⟩
      show CommissionBooks first ((w.apply (a.posted entry)).ledger ++ [e])
      rw [hwquiet]
      have hkey : e.idempotencyKey = .refdep p.userId := htid ▸ he.entry_eq.2
      have hfresh : depositCommissions p.userId (a.posted entry).ledger = [] := by
        have := he.fresh
        rw [show Key.orElse (.some (.refdep user.telegramId)) _ = .refdep user.telegramId from rfl, htid] at this
        rw [← depositCommissions_nil, hwquiet] at this
        exact this
      refine hposted.earned hkey hfresh hdep ?_ fun hfirst => ?_
      · obtain ⟨_, d, _, hd, rfl, -⟩ := he.drafted
        obtain rfl := Except.ok.inj hd
        refine ⟨rfl, ⟨rfl, by rw [← hentry]; rfl⟩, ?_⟩
        rw [← hentry]
        exact commissionPaise_eq hearns
      · refine depositsOf_nil hb (List.eq_nil_of_length_eq_zero ?_)
        have hcount' : (a.paidDeposits p.userId).length ≤ 1 := by
          rw [htid] at hcount
          exact hcount
        have hhouse' : a.SameHouse (a.posted entry) := (Db.SameHouse.refl a).posted entry
        have hunearned : a.findEntry (.refdep p.userId) = none := by
          rw [Db.posted_ledger, depositCommissions_append] at hfresh
          exact depositCommissions_nil.mp (List.append_eq_nil_iff.mp hfresh).1
        have hreferrer : a.referrer p.userId ≠ none :=
          hhouse'.referrer hbuyer (hreferred.trans hid) hrow (htid ▸ hne)
        have hsecond : (a.paidDeposits p.userId).length ≠ 1 := fun hone =>
          hlate hfirst ⟨hreferrer, hone, hunearned, hearns⟩
        omega

/-- Whatever tables the session's flush leads to, the payment is among them,
and settling it on them is not late. -/
def Ready (first : Prop) (r : Report) (p : Payment) (s : Session) : Prop :=
  ∀ a, Txn.flushAll s.staged s.db = .some a → a.SameHouse s.db ∧ PaymentBooks True .none a ∧ a.Keyed ∧
    p ∈ a.payments ∧ (first → r.Matches p → p.status ≠ .paid → ¬ a.LateDeposit p)

theorem wp_settleLocked_commissions (h : Session.Commissions first s) (hid : r.publicId = p.publicId)
    (hready : Ready first r p s) :
    (settleLocked now p r).wp (fun _ => Session.Commissions first) (CommissionErrors first) s := by
  unfold settleLocked
  split
  · exact h
  next hg =>
  split
  · exact h
  next href =>
  split
  · exact h
  next hn =>
  split
  · exact wp_noEntry (holdForReview_noEntry now r) h fun _ _ h' => h'
  next hm =>
  simp only [Bool.not_eq_true] at hg href hm
  have hmatches : r.Matches p := .of (.of hid hg href) hm
  cases hf : Txn.flushAll s.staged s.db with
  | some a =>
    obtain ⟨hhouse, hb, hkeyed, hp, hlate⟩ := hready a hf
    exact wp_creditDeposit_commissions h hhouse hf hb hkeyed hp hn fun hfirst => hlate hfirst hmatches hn
  | none =>
    -- what is staged is refused, and nothing is caught
    simp only [creditDeposit, wp_bind, wp_query]
    cases s.db.users p.userId with
    | none =>
      simp only [wp_bind]
      exact wp_noEntry (setPayment_noEntry _) h fun _ _ h' => h'
    | some user =>
      simp only [wp_bind, credit]
      by_cases hpos : 0 < p.deposit.amountPaise
      · exact wp_post_stuck hf hpos fun hd => by cases hd
      · simp only [post, wp_bind, wp_require, decide_eq_true_eq, if_neg hpos]
        exact fun hd => by cases hd

theorem wp_settlePayment_commissions {loaded : Option Payment} (h : Session.Commissions first s)
    (hready : ∀ row, s.db.findPayment r.publicId = .some row →
      r.publicId = (loaded.getD row).publicId ∧ Ready first r (loaded.getD row) s) :
    (settlePayment now loaded r).wp (fun _ => Session.Commissions first) (CommissionErrors first) s := by
  simp only [settlePayment, lockPayment, wp_bind, wp_lockRow]
  cases hf : s.db.findPayment r.publicId with
  | none => exact h
  | some row =>
    obtain ⟨hid, hr⟩ := hready row hf
    simp only [Option.map_some, wp_bind]
    exact wp_mono (wp_settleLocked_commissions h hid hr) (fun _ _ h' => h') fun _ _ h' => h'

theorem wp_applyAnswer_commissions {gateway source : String} {answer : Except String GatewayStatus}
    (h : Session.Commissions first s)
    (hready : ∀ status, answer = .ok status → status.state = .paid → Ready first (status.report gateway source p) p s) :
    (applyAnswer now gateway source p answer).wp (fun _ => Session.Commissions first) (CommissionErrors first) s := by
  unfold applyAnswer
  split
  · exact h
  next status =>
  split
  · next hst =>
    simp only [wp_bind]
    exact wp_mono (wp_settlePayment_commissions h fun _ _ => ⟨rfl, hready status rfl hst⟩) (fun _ _ h' => h')
      fun _ _ h' => h'
  · split
    · simp only [wp_bind]
      exact wp_noEntry (setPayment_noEntry _) h fun _ _ h' => h'
    · exact h
  · exact h

end

/-! ## The calls -/

/-- The tables once a pass has dealt with the rows of `done`. -/
def Pass.after (now : Time) (pass : Pass) (done : List Payment) (db : Db) : Option Db :=
  match (Txn.Prog.collect (reconcilePayment now pass) done).run { db := db } with
  | (.ok _, s) => Txn.flushAll s.staged s.db
  | (.error _, _) => none

namespace PaymentCall

/-- The call settles a late deposit. Of the deposits a reconciliation pass
settles, each finds the tables as those before it have left them. -/
inductive SettlesLate (db : Db) : PaymentCall → Prop
  | alone {c p} : c.Pays db p → (∀ now pass, c ≠ .reconcile now pass) → p ∈ db.payments → p.status ≠ .paid →
      db.LateDeposit p → SettlesLate db c
  | pass {now pass done p rest a status} : pass.rows now db = done ++ p :: rest → pass.after now done db = .some a →
      pass.answers p.publicId = .ok status → status.state = .paid →
      (status.report pass.gateway "reconcile" p).Matches p → a.LateDeposit p → SettlesLate db (.reconcile now pass)

variable {first : Prop} {db : Db}

theorem routine (c : PaymentCall) : c.prog.Writes Stmt.Routine := by
  cases c with
  | create =>
    exact .bind (createDeposit_writes .insertPayment .updatePayment .deletePayment _ _ _ _ _ _ _ _) fun _ => .pure _
  | webhook => exact .bind (handleWebhookEvent_routine _ _ _) fun _ => .pure _
  | reconcile => exact .bind (reconcilePending_routine _ _) fun _ => .pure _
  | check => exact .bind (checkPayment_routine _ _ _ _ _ _) fun _ => .pure _
  | confirm => exact .bind (manualConfirm_routine _ _ _) fun _ => .pure _
  | mockPay => exact .bind (mockPay_routine _ _ _ _) fun _ => .pure _

/-- What a call that settles one payment finds. -/
theorem ready {c : PaymentCall} {r : Report} {p : Payment} {s : Session} (hb : PaymentBooks True .none db)
    (hkeyed : db.Keyed) (hlate : first → ¬ c.SettlesLate db) (hc : ∀ now pass, c ≠ .reconcile now pass)
    (hp : p ∈ db.payments) (hr : c.Reports db r) (hst : s.staged = []) (hpay : s.db.payments = db.payments)
    (hledger : s.db.ledger = db.ledger) (husers : s.db.users = db.users) : Ready first r p s := by
  intro a hf
  rw [hst] at hf
  obtain rfl := Option.some.inj hf
  refine ⟨.refl _, hb.congr hpay hledger, fun u row hu => hkeyed u row (husers ▸ hu), hpay ▸ hp,
    fun hfirst hm hn hl => hlate hfirst (.alone ⟨r, hr, hm⟩ hc hp hn ?_)⟩
  refine ⟨?_, ?_, ?_, hl.earns⟩
  · simpa only [Db.referrer, husers] using hl.referred
  · simpa only [Db.paidDeposits, hpay] using hl.second
  · simpa only [Db.findEntry, hledger] using hl.unearned

theorem wp_applyEvent_commissions {now : Time} {gateway : String} {event : GatewayEvent} {s : Session}
    (h : Session.Commissions first s)
    (hready : ∀ pid row, event.kind = .paid → event.reference = .some pid → pid ≠ "" →
      s.db.findPayment pid = .some row → Ready first (event.report gateway pid) row s) :
    (applyEvent now gateway event).wp (fun _ => Session.Commissions first) (CommissionErrors first) s := by
  unfold applyEvent
  split
  · next hk =>
    obtain ⟨pid, href⟩ : ∃ pid, event.reference = .some pid :=
      Option.ne_none_iff_exists'.mp fun hnone => by simp [hnone, truthy] at hk
    simp only [href, Option.getD_some, wp_bind]
    refine wp_mono (wp_settlePayment_commissions h fun row hf => ?_) (fun _ _ h' => h') fun _ _ h' => h'
    exact ⟨(Db.findPayment_mem hf).2.symm, hready pid row hk.1 href (truthy_some.mp (href ▸ hk.2)) hf⟩
  split
  · exact wp_noEntry (expireEvent_noEntry _) h fun _ _ h' => h'
  split
  · simp only [wp_bind]
    exact wp_noEntry (audit_noEntry _ _ _ _ _) h fun _ _ h' => h'
  · exact h

theorem wp_webhook_commissions {now : Time} {gateway : String} {event : GatewayEvent}
    (hb : PaymentBooks True .none db) (hkeyed : db.Keyed) (hc : CommissionBooks first db.ledger)
    (hlate : first → ¬ (webhook now gateway event).SettlesLate db) :
    (handleWebhookEvent now gateway event).wp (fun _ => Session.Commissions first) (CommissionErrors first)
      { db := db } := by
  simp only [handleWebhookEvent, wp_bind, wp_savepoint]
  split
  · simp only [Bool.not_true, Bool.false_eq_true, if_false, wp_bind]
    have h₁ : Session.Commissions first { db := (Stmt.insertPaymentEvent (event.row now gateway)).apply db } :=
      ⟨hc, by simp⟩
    refine wp_mono (wp_applyEvent_commissions h₁ fun pid row hk href hne hf => ?_) (fun _ s h => ?_) fun _ _ h => h
    · exact ready hb hkeyed hlate nofun (Db.findPayment_mem hf).1 (.webhook hk href hne) rfl rfl rfl rfl
    · exact wp_noEntry (.write fun _ => rfl) h fun _ _ h' => h'
  · exact ⟨hc, by simp⟩

/-- The rows left of a pass, and what the session has come to. -/
structure PassAt (first : Prop) (db : Db) (now : Time) (pass : Pass) (rows rest : List Payment) (s : Session) :
    Prop where
  run : ∃ done rs, rows = done ++ rest ∧
    (Txn.Prog.collect (reconcilePayment now pass) done).run { db := db } = (.ok rs, s)
  dealing : Dealing (fun _ => True) db .none rest s
  distinct : (rest.map (·.publicId)).Nodup
  kept : s.Kept db.SameHouse Stmt.Routine
  commissions : Session.Commissions first s

theorem wp_reconcile_commissions {now : Time} {pass : Pass} (hb : PaymentBooks True .none db) (hkeyed : db.Keyed)
    (hc : CommissionBooks first db.ledger) (hlate : first → ¬ (reconcile now pass).SettlesLate db) :
    (reconcilePending now pass).wp (fun _ => Session.Commissions first) (CommissionErrors first) { db := db } := by
  simp only [reconcilePending, wp_bind, wp_query]
  generalize hrows : pass.rows now db = rows
  have hsub : rows.Sublist db.payments := hrows ▸ (List.take_sublist _ _).trans List.filter_sublist
  have hstart : PassAt first db now pass rows rows { db := db } :=
    ⟨⟨[], [], rfl, rfl⟩, .start hb fun q hq => hsub.subset hq, hb.ids.sublist (hsub.map _), ⟨.refl _, by simp⟩,
      ⟨hc, by simp⟩⟩
  refine wp_mono (wp_collect hstart fun p rest s hat => ?_) (fun _ s h => h.commissions) fun _ _ h => h
  obtain ⟨done, rs, hsplit, hrun⟩ := hat.run
  have hdistinct := hat.distinct
  simp only [List.map_cons, List.nodup_cons] at hdistinct
  have hrest : ∀ q ∈ rest, q.publicId ≠ p.publicId := fun q hq he => hdistinct.1 (he ▸ List.mem_map_of_mem hq)
  have hp : p ∈ db.payments := hsub.subset (by simp [hsplit])
  have hready (status) (hans : pass.answers p.publicId = .ok status) (hst : status.state = .paid) :
      Ready first (status.report pass.gateway "reconcile" p) p { s with sent := s.sent ++ [.fetchStatus (p.providerRef.getD "")] } := by
    intro a hf
    have hat' := hat.dealing a hf
    have hhouse : db.SameHouse a := hat.kept.will (fun _ hw => hw.keeps db) hf
    refine ⟨hhouse.symm.trans hat.kept.db, hat'.books, fun u row hu => ?_, hat'.rest p (by simp), fun hfirst hm _ hl => ?_⟩
    · obtain ⟨row', hu', htid, -⟩ := hhouse.symm.user hu
      exact htid.symm.trans (hkeyed u row' hu')
    · refine hlate hfirst (.pass (hrows.trans hsplit) ?_ hans hst hm hl)
      simp only [Pass.after, hrun]
      exact hf
  have hturn : (reconcilePayment now pass p).wp (fun _ => Dealing (fun _ => True) db .none rest)
      (DepositErrors (fun _ => True) db) s := by
    simp only [reconcilePayment, askGateway, wp_bind, wp_call]
    exact wp_applyAnswer hat.dealing hrest hp (fun _ _ _ _ => trivial) fun _ _ h => h
  have hturn' : (reconcilePayment now pass p).wp (fun _ => Session.Commissions first) (CommissionErrors first) s := by
    simp only [reconcilePayment, askGateway, wp_bind, wp_call]
    exact wp_mono (wp_applyAnswer_commissions ⟨hat.commissions.db, hat.commissions.staged⟩ hready) (fun _ _ h => h)
      fun _ _ h => h
  have hkept := (reconcilePayment_writes (.routine p) now pass).run (fun _ hw => hw.keeps db) hat.kept
  refine wp_of_run (fun r s' hr => ?_) fun e s' hr => wp_error hturn' hr
  rw [hr] at hkept
  refine ⟨⟨done ++ [p], rs ++ r, by simp [hsplit], run_collect_snoc hrun hr⟩, wp_ok hturn hr, hdistinct.2, hkept, ?_⟩
  exact wp_ok hturn' hr

theorem wp_commissions (hb : PaymentBooks True .none db) (hkeyed : db.Keyed) (hc : CommissionBooks first db.ledger)
    (c : PaymentCall) (hlate : first → ¬ c.SettlesLate db) :
    c.prog.wp (fun _ => Session.Commissions first) (CommissionErrors first) { db := db } := by
  have h₀ : Session.Commissions first { db := db } := ⟨hc, by simp⟩
  cases c with
  | create now publicId user amountPaise settings idempotencyKey gateway checkout =>
    simp only [prog, wp_bind]
    exact wp_noEntry (createDeposit_writes (fun _ _ => rfl) (fun _ _ _ => rfl) (fun _ _ => rfl) _ _ _ _ _ _ _ _) h₀
      fun _ _ h => h
  | webhook now gateway event =>
    simp only [prog, wp_bind]
    exact wp_webhook_commissions hb hkeyed hc hlate
  | reconcile now pass =>
    simp only [prog, wp_bind]
    exact wp_reconcile_commissions hb hkeyed hc hlate
  | check now publicId userId settings gateway answer =>
    simp only [prog, wp_bind, checkPayment, wp_query]
    cases hf : (db.findPayment publicId).filter (·.userId = userId) with
    | none => exact h₀
    | some p =>
      obtain ⟨hfound, hown⟩ := Option.filter_eq_some_iff.mp hf
      simp only [decide_eq_true_eq] at hown
      subst hown
      have hm := (Db.findPayment_mem hfound).1
      simp only
      split
      · next hcheck =>
        simp only [wp_bind]
        refine gatewayOr_wp (fun _ _ => h₀) h₀ ?_
        simp only [askGateway, wp_bind, wp_call]
        have h₁ : Session.Commissions first { db := db, sent := [.fetchStatus (p.providerRef.getD "")] } :=
          ⟨hc, by simp⟩
        refine wp_mono (wp_applyAnswer_commissions h₁ fun status hans hst => ?_) (fun _ _ h => h) fun _ _ h => h
        subst hans
        exact ready hb hkeyed hlate (fun _ _ he => by cases he) hm (.check hfound hcheck hst) rfl rfl rfl rfl
      · exact h₀
  | confirm now publicId actor =>
    simp only [prog, wp_bind, manualConfirm, wp_query]
    cases hf : db.findPayment publicId with
    | none => exact h₀
    | some p =>
      simp only [wp_bind]
      exact wp_mono (wp_settlePayment_commissions h₀ fun _ _ => ⟨rfl, ready hb hkeyed hlate (fun _ _ he => by cases he)
        (Db.findPayment_mem hf).1 (.confirm hf) rfl rfl rfl rfl⟩) (fun _ _ h => h) fun _ _ h => h
  | mockPay now publicId userId settings =>
    simp only [prog, wp_bind, Falaron.mockPay, wp_require]
    split
    case isFalse => exact fun hd => by cases hd
    next hallowed =>
    simp only [wp_query]
    cases hf : (db.findPayment publicId).filter fun p => p.userId = userId ∧ p.method = "mock" with
    | none => exact fun hd => by cases hd
    | some p =>
      obtain ⟨hfound, hown⟩ := Option.filter_eq_some_iff.mp hf
      simp only [decide_eq_true_eq] at hown
      obtain ⟨rfl, hmethod⟩ := hown
      simp only [wp_bind]
      exact wp_mono (wp_settlePayment_commissions h₀ fun _ _ => ⟨rfl, ready hb hkeyed hlate (fun _ _ he => by cases he)
        (Db.findPayment_mem hfound).1 (.mockPay hallowed hfound hmethod) rfl rfl rfl rfl⟩) (fun _ _ h => h) fun _ _ h => h

/-- What its caller commits. -/
theorem commit_commissions {caught : Err → Bool} (hcaught : ∀ e, caught e = true → e.isDeposit = true)
    (hb : PaymentBooks True .none db) (hkeyed : db.Keyed) (hc : CommissionBooks first db.ledger) (c : PaymentCall)
    (hlate : first → ¬ c.SettlesLate db) : CommissionBooks first (c.prog.commit caught db).ledger := by
  have hend (s : Session) (h : Session.Commissions first s) :
      CommissionBooks first ((Txn.flushAll s.staged s.db).getD db).ledger := by
    cases hf : Txn.flushAll s.staged s.db with
    | none => exact hc
    | some a => exact h.will (fun _ hw => hw.keeps) hf
  exact commit_of_wp (P := fun a => CommissionBooks first a.ledger) hc
    (wp_mono (wp_commissions hb hkeyed hc c hlate) (fun _ => hend) fun e s he hce => hend s (he (hcaught e hce)))

end PaymentCall

/-! ## Every run -/

/-- No payment has been made, and no commission on one. -/
structure NoDeposits (db : Db) : Prop extends NoPayments db where
  keyed : db.Keyed
  commissions : ∀ u, depositCommissions u db.ledger = []

/-- A change that is about no payment and no commission on one. -/
structure OtherThanDeposits (a b : Db) : Prop extends OtherThanPayments a b where
  keyed : b.Keyed
  commissions : ∀ u, depositCommissions u b.ledger = depositCommissions u a.ledger

/-- The tables after any run of attributions and of calls of the payment
service, whose calls all meet `ok`, with other changes between them. -/
inductive DepositRun (ok : Db → PaymentCall → Prop) (db₀ : Db) : Db → Prop
  | start : DepositRun ok db₀ db₀
  | call {db caught} (c : PaymentCall) : DepositRun ok db₀ db → (∀ e, caught e = true → e.isDeposit = true) →
      ok db c → DepositRun ok db₀ (c.prog.commit caught db)
  | hit {db visitor} (now : Time) (code : String) (caught : Err → Bool) : DepositRun ok db₀ db →
      db.users visitor.telegramId = .some visitor → DepositRun ok db₀ ((recordStartHit now code visitor).commit caught db)
  | other {db db'} : DepositRun ok db₀ db → OtherThanDeposits db db' → DepositRun ok db₀ db'

/-- What every run keeps. -/
structure DepositState (first : Prop) (db : Db) : Prop where
  books : PaymentBooks True .none db
  keyed : db.Keyed
  commissions : CommissionBooks first db.ledger

/-- The deposit that was the first to be credited to a user. -/
def Db.firstDeposit (db : Db) (u : Int) : Option String := (depositsOf u db.ledger).head?.bind (·.paymentRef)

section

variable {first : Prop} {db db' db₀ : Db}

theorem NoDeposits.state (h : NoDeposits db) : DepositState first db where
  books := h.toNoPayments.books
  keyed := h.keyed
  commissions :=
    { once := fun u => by rw [h.commissions u]; exact Nat.zero_le 1
      shares := fun u e he => by rw [h.commissions u] at he; cases he }

theorem DepositState.call (h : DepositState first db) {caught : Err → Bool}
    (hcaught : ∀ e, caught e = true → e.isDeposit = true) (c : PaymentCall) (hlate : first → ¬ c.SettlesLate db) :
    DepositState first (c.prog.commit caught db) where
  books := (c.commit_ends hcaught h.books).books
  keyed := h.keyed.sameHouse (c.routine.commit (fun _ hw => hw.keeps db) (.refl db) caught)
  commissions := c.commit_commissions hcaught h.books h.keyed h.commissions hlate

/-- An attribution changes who referred whom, and nothing else of this. -/
theorem DepositState.hit (h : DepositState first db) {visitor : User} (now : Time) (code : String)
    (caught : Err → Bool) : DepositState first ((recordStartHit now code visitor).commit caught db) := by
  let I (b : Db) : Prop := b.payments = db.payments ∧ b.ledger = db.ledger ∧ b.Keyed
  have hwrites : (recordStartHit now code visitor).Writes fun w => w.Keeps I := by
    refine recordStartHit_writes (fun _ r b hb => ⟨hb.1, hb.2.1, fun u row hu => ?_⟩) (fun _ _ hb => hb) _ _
    simp only [Stmt.setReferredBy] at hu
    split at hu
    · obtain ⟨row', hrow, rfl⟩ := Option.map_eq_some_iff.mp hu
      exact hb.2.2 u row' hrow
    · exact hb.2.2 u row hu
  have hI : I ((recordStartHit now code visitor).commit caught db) :=
    hwrites.commit (fun _ hw => hw) (show I db from ⟨rfl, rfl, h.keyed⟩) caught
  generalize (recordStartHit now code visitor).commit caught db = db' at hI
  obtain ⟨hpay, hledger, hkeyed⟩ := hI
  exact ⟨h.books.congr hpay hledger, hkeyed, hledger ▸ h.commissions⟩

theorem DepositState.other (h : DepositState first db) (ho : OtherThanDeposits db db') : DepositState first db' := by
  obtain ⟨es, hes, hnone⟩ := ho.ledger
  refine ⟨ho.toOtherThanPayments.books h.books, ho.keyed, ⟨fun u => ?_, fun u e he => ?_⟩⟩
  · rw [ho.commissions u]
    exact h.commissions.once u
  · rw [ho.commissions u] at he
    obtain ⟨d, hd, hshare, hfirst⟩ := h.commissions.shares u e he
    have hnil : depositsOf u es = [] := by
      refine List.filter_eq_nil_iff.mpr fun e he hc => ?_
      simp [(hnone e he).1] at hc
    rw [hes, depositsOf_append, hnil, List.append_nil]
    exact ⟨d, hd, hshare, hfirst⟩

theorem DepositRun.state {ok : Db → PaymentCall → Prop} (hok : first → ∀ db c, ok db c → ¬ c.SettlesLate db)
    (h₀ : NoDeposits db₀) (h : DepositRun ok db₀ db) : DepositState first db := by
  induction h with
  | start => exact h₀.state
  | call c _ hcaught hc ih => exact ih.call hcaught c fun hfirst => hok hfirst _ c hc
  | hit now code caught _ _ ih => exact ih.hit now code caught
  | other _ ho ih => exact ih.other ho

end

/-- What the ledger says of a commission on a deposit, with the invoice it is about. -/
theorem DepositState.invoice {first : Prop} {db : Db} {u : Int} {e d : LedgerEntry} (h : DepositState first db)
    (hd : d ∈ depositsOf u db.ledger) (he : e.IsShareOf d) :
    ∃ p ∈ db.payments, p.userId = u ∧ p.status = .paid ∧ d.paymentRef = .some p.publicId ∧
      e.referenceId = .some p.publicId ∧
      e.amountPaise = p.amountPaise * referralDepositCommissionPercent / 100 := by
  obtain ⟨hmem, huser, href⟩ := mem_depositsOf.mp hd
  obtain ⟨pid, hpid⟩ := Option.isSome_iff_exists.mp href
  obtain ⟨p, hp, rfl⟩ := h.books.known d hmem pid hpid
  have hcred : d ∈ db.depositCredits p.publicId :=
    Db.mem_depositCredits.mpr ⟨hmem, (h.books.refs d hmem).2 href, hpid⟩
  cases h.books.settled p hp with
  | unpaid hnil _ =>
    rw [hnil] at hcred
    cases hcred
  | credited hone hsettles hpaid =>
    rw [hone] at hcred
    obtain rfl := List.mem_singleton.mp hcred
    exact ⟨p, hp, hsettles.owner.symm.trans huser, hpaid ⟨trivial, nofun⟩, hpid, he.reference.2.trans hpid,
      hsettles.amount ▸ he.amount⟩

/-- **Deposit commissions are for first deposits**, once per buyer and the
exact share, in every run in which no call settles a late deposit. -/
theorem deposit_commissions_on_first {db₀ db : Db} (h₀ : NoDeposits db₀)
    (h : DepositRun (fun db c => ¬ c.SettlesLate db) db₀ db) (u : Int) :
    (depositCommissions u db.ledger).length ≤ 1 ∧
    ∀ e ∈ depositCommissions u db.ledger, ∃ p ∈ db.payments, p.userId = u ∧ p.status = .paid ∧
      db.firstDeposit u = .some p.publicId ∧ e.referenceId = .some p.publicId ∧
      e.amountPaise = p.amountPaise * referralDepositCommissionPercent / 100 := by
  have hstate : DepositState True db := h.state (fun _ _ _ hc => hc) h₀
  refine ⟨hstate.commissions.once u, fun e he => ?_⟩
  obtain ⟨d, hd, hshare, hfirst⟩ := hstate.commissions.shares u e he
  obtain ⟨p, hp, hown, hpaid, hpid, href, hamount⟩ := hstate.invoice hd hshare
  refine ⟨p, hp, hown, hpaid, ?_, href, hamount⟩
  rw [Db.firstDeposit, hfirst trivial]
  exact hpid

/-- In any run, whatever deposit they are for, they are once per buyer and the exact share. -/
theorem deposit_commissions_once {db₀ db : Db} (h₀ : NoDeposits db₀) (h : DepositRun (fun _ _ => True) db₀ db)
    (u : Int) : (depositCommissions u db.ledger).length ≤ 1 ∧
    ∀ e ∈ depositCommissions u db.ledger, ∃ p ∈ db.payments, p.userId = u ∧ p.status = .paid ∧
      e.referenceId = .some p.publicId ∧
      e.amountPaise = p.amountPaise * referralDepositCommissionPercent / 100 := by
  have hstate : DepositState False db := h.state (fun hf => hf.elim) h₀
  refine ⟨hstate.commissions.once u, fun e he => ?_⟩
  obtain ⟨d, hd, hshare, _⟩ := hstate.commissions.shares u e he
  obtain ⟨p, hp, hown, hpaid, _, href, hamount⟩ := hstate.invoice hd hshare
  exact ⟨p, hp, hown, hpaid, href, hamount⟩

/-! ## Two customers, one of them with a code -/

/-- User 8 has the code `FRIEND`. -/
def club : Db where
  users u := if u = 7 ∨ u = 8 then .some { telegramId := u } else .none
  referralCodes code := if code = "FRIEND" then .some 8 else .none

theorem club_opening : NoDeposits club where
  payments := rfl
  entries := by simp [club]
  keyed u row hu := by
    simp only [club] at hu
    split at hu <;> cases hu
    rfl
  commissions _ := rfl

/-- An invoice of another amount. -/
def otherInvoice (publicId : String) : PaymentCall :=
  .create 0 publicId { telegramId := 7 } 60000 liveSettings .none .none (.ok ⟨"https://rzp.io/i/y", "plink_x"⟩)

/-- User 7, with some money, follows the link of user 8. -/
def followLink (balance : Int) (db : Db) : Db :=
  (recordStartHit 5 "friend" { telegramId := 7, cachedBalancePaise := balance }).commit (fun _ => false) db

section

variable {ok : Db → PaymentCall → Prop} {db₀ db : Db}

theorem DepositRun.followLink {balance : Int} (h : DepositRun ok db₀ db)
    (hrow : db.users 7 = .some { telegramId := 7, cachedBalancePaise := balance }) :
    DepositRun ok db₀ (Falaron.followLink balance db) := h.hit 5 "friend" (fun _ => false) hrow

theorem DepositRun.after (h : DepositRun ok db₀ db) (c : PaymentCall) (hc : ok db c) :
    DepositRun ok db₀ (c.prog.commit (fun _ => false) db) := h.call c (fun _ he => by cases he) hc

end

/-- He does so before his first deposit, which earns. -/
theorem deposit_commissions_on_first_of_link :
    let db := afterPayments (followLink 0 club) [invoice "P", .webhook 1 "razorpay" (paidEvent "e1" "P" 50000)]
    ∃ e, depositCommissions 7 db.ledger = [e] ∧ db.firstDeposit 7 = .some "P" ∧
      e.referenceId = .some "P" ∧ e.amountPaise = 2500 := by
  intro db
  have hinvoice (a : Db) : ¬ (invoice "P").SettlesLate a := by
    intro h
    generalize hc : invoice "P" = c at h
    cases h with
    | alone hp =>
      obtain ⟨r, hr, _⟩ := hp
      subst hc
      cases hr
    | pass => cases hc
  have hpaid : ¬ (PaymentCall.webhook 1 "razorpay" (paidEvent "e1" "P" 50000)).SettlesLate
      (afterPayments (followLink 0 club) [invoice "P"]) := by
    intro h
    cases h with
    | alone hp _ hm hn hl =>
      have hnone : ∀ p ∈ (afterPayments (followLink 0 club) [invoice "P"]).payments,
          ((afterPayments (followLink 0 club) [invoice "P"]).paidDeposits p.userId).length = 0 := by decide +kernel
      exact absurd hl.second (by rw [hnone _ hm]; decide)
  have hlink : DepositRun (fun db c => ¬ c.SettlesLate db) club (followLink 0 club) :=
    DepositRun.start.followLink (by decide +kernel)
  have hrun : DepositRun (fun db c => ¬ c.SettlesLate db) club db :=
    (hlink.after (invoice "P") (hinvoice _)).after _ hpaid
  have hone : (depositCommissions 7 db.ledger).map (fun e => (e.referenceId, e.amountPaise)) =
      [(.some "P", 2500)] := by decide +kernel
  obtain ⟨e, he, heq⟩ := List.map_eq_singleton_iff.mp hone
  obtain ⟨p, _, _, _, hfirst, href, _⟩ := (deposit_commissions_on_first club_opening hrun 7).2 e (by simp [he])
  obtain ⟨hP, hamount⟩ := Prod.mk.inj heq
  exact ⟨e, he, by rw [hfirst, ← href, hP], hP, hamount⟩

/-- He does so after his first deposit; the second one earns. -/
theorem second_deposit_earns :
    let db := afterPayments (followLink 50000 (afterPayments club
        [invoice "P", .webhook 1 "razorpay" (paidEvent "e1" "P" 50000)]))
      [otherInvoice "Q", .webhook 6 "razorpay" (paidEvent "e2" "Q" 60000)]
    NoDeposits club ∧ DepositRun (fun _ _ => True) club db ∧
      ∃ e ∈ depositCommissions 7 db.ledger, e.referenceId = .some "Q" ∧ db.firstDeposit 7 = .some "P" := by
  intro db
  refine ⟨club_opening, ?_, ?_⟩
  · have hstart : DepositRun (fun _ _ => True) club club := .start
    have hfirst := (hstart.after (invoice "P") trivial).after (.webhook 1 "razorpay" (paidEvent "e1" "P" 50000)) trivial
    have hlink := @DepositRun.followLink _ _ _ 50000 hfirst (by decide +kernel)
    exact (hlink.after (otherInvoice "Q") trivial).after (.webhook 6 "razorpay" (paidEvent "e2" "Q" 60000)) trivial
  · decide +kernel

end Falaron
