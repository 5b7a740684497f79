/-
Reconciliation: what repeated passes over the open invoices come to.

A pass asks about the first invoices that match its filter, in the order of
their ids. The ones reported paid leave the filter, settled or held for a
human; all others still match it, also once they are marked expired, and are
in front again in the next pass. So passes sweep the invoices as a queue in
which the unpaid ones stay (`Pass.queue_swept`).
-/
import Falaron.OrderSync
import Falaron.PaymentRun
import Falaron.Queue

namespace Falaron

open Text (upper)
open Txn.Prog hiding pure

namespace Pass

variable (pass : Pass)

/-- The gateway says of the payment that it is paid. -/
def reportsPaid (publicId : String) : Bool :=
  match pass.answers publicId with
  | .ok status => status.state == .paid
  | .error _ => false

/-- It is paid with the invoice's amount, and in its currency. -/
def PaidInFull (p : Payment) : Prop :=
  ∃ status, pass.answers p.publicId = .ok status ∧ status.state = .paid ∧
    status.amountPaise = .some p.amountPaise ∧
    ∀ c, status.currency = .some c → c ≠ "" → upper c = upper p.currency

def report (status : GatewayStatus) (p : Payment) : Report := status.report pass.gateway "reconcile" p

/-- The row of a payment that has been asked about. -/
def turn (now : Time) (p : Payment) : Payment :=
  match pass.answers p.publicId with
  | .error _ => p
  | .ok status =>
    match status.state with
    | .paid =>
      if (pass.report status p).mismatch p then
        { p with status := .review, failureReason := .some ((pass.report status p).mismatchReason p) }
      else p.settled now (pass.report status p)
    | .expired => if p.status = .pending then { p with status := .expired } else p
    | .pending => p

/-- The row of any payment once those of `done` have been asked about. -/
def turned (now : Time) (done : List Payment) (p : Payment) : Payment :=
  if p ∈ done then pass.turn now p else p

/-- Nothing can stop the pass: the wallets are sound, and no invoice it credits is for nothing. -/
structure Clears (now : Time) (db : Db) : Prop where
  payable : db.Payable
  amounts : ∀ p ∈ pass.rows now db, pass.PaidInFull p → 0 < p.amountPaise

end Pass

/-- Every invoice is some user's. -/
def Db.Owned (db : Db) : Prop := ∀ p ∈ db.payments, (db.users p.userId).isSome = true

section

variable {pass : Pass} {now : Time} {p q : Payment} {status : GatewayStatus} {done : List Payment}

theorem Pass.selects_iff : pass.selects now p = true ↔ p.method = pass.gateway ∧
    (p.status = .pending ∨ p.status = .expired) ∧ p.providerRef.isSome = true ∧
    p.createdAt ≤ now - pass.minAgeSeconds * microseconds ∧
    now - pass.maxAgeHours * 3600 * microseconds ≤ p.createdAt := by
  simp [Pass.selects, and_assoc]

/-- The rows of a pass are payments that it selects. -/
theorem Pass.mem_rows {db : Db} (h : p ∈ pass.rows now db) : p ∈ db.payments ∧ pass.selects now p = true :=
  List.mem_filter.mp (List.mem_of_mem_take h)

theorem Pass.selects_unpaid (h : pass.selects now p = true) : p.status ≠ .paid := by
  rcases (Pass.selects_iff.mp h).2.1 with hs | hs <;> simp [hs]

theorem Pass.mismatch_iff : (pass.report status p).mismatch p = false ↔
    status.amountPaise = .some p.amountPaise ∧
      ∀ c, status.currency = .some c → c ≠ "" → upper c = upper p.currency := by
  obtain ⟨state, amountPaise, currency⟩ := status
  simp only [Report.mismatch, Bool.or_eq_false_iff, decide_eq_false_iff_not, ne_eq, not_not]
  refine and_congr_right fun _ => ?_
  cases currency with
  | none => simp [Report.cur, Pass.report, GatewayStatus.report, truthy]
  | some c =>
    by_cases hne : c = ""
    · simp [Report.cur, Pass.report, GatewayStatus.report, truthy, hne]
    · simp [Report.cur, Pass.report, GatewayStatus.report, truthy, hne]

theorem Pass.turn_sameInvoice : p.SameInvoice (pass.turn now p) := by
  unfold Pass.turn
  split
  · rfl
  split
  · split <;> rfl
  · split <;> rfl
  · rfl

theorem Pass.turned_sameInvoice : p.SameInvoice (pass.turned now done p) := by
  unfold Pass.turned
  split
  · exact turn_sameInvoice
  · rfl

/-- A selected payment is paid after its turn if it is reported so. -/
theorem Pass.turn_paid (h : pass.PaidInFull p) : (pass.turn now p).status = .paid := by
  obtain ⟨status, ha, hs, hm⟩ := h
  simp only [Pass.turn, ha, hs, mismatch_iff.mpr hm, Bool.false_eq_true, if_false]
  rfl

/-- It is selected again if it is not reported paid. -/
theorem Pass.selects_turn {t : Time} (h : pass.selects now p = true) :
    pass.selects now (pass.turn t p) = !pass.reportsPaid p.publicId := by
  obtain ⟨hmethod, hstatus, href, hage⟩ := selects_iff.mp h
  unfold Pass.turn reportsPaid
  cases pass.answers p.publicId with
  | error e => exact h
  | ok status =>
    obtain ⟨state, amountPaise, currency⟩ := status
    cases state with
    | paid =>
      simp only [beq_self_eq_true, Bool.not_true, Bool.eq_false_iff, ne_eq, selects_iff]
      split
      · simp
      · simp [Payment.settled]
    | expired =>
      simp only
      split
      · exact selects_iff.mpr ⟨hmethod, .inr rfl, href, hage⟩
      · exact h
    | pending => exact h

end

/-! ## The session of a pass -/

/-- What the pass relies on seeing: the invoices there were, and the people. -/
structure Viewed (base d : Db) : Prop where
  house : base.SameHouse d
  ids : d.payments.map (·.publicId) = base.payments.map (·.publicId)

namespace Pass

/-- The tables once those of `done` have been asked about. -/
structure Left (pass : Pass) (now : Time) (base : Db) (done : List Payment) (d : Db) : Prop where
  payments : d.payments = base.payments.map (pass.turned now done)
  house : base.SameHouse d
  payable : base.Payable → d.Payable

/-- The session of a pass that has asked about those of `done`: it will be at `d` once it has flushed. -/
structure At (pass : Pass) (now : Time) (base : Db) (done : List Payment) (d : Db) (s : Session) : Prop where
  flush : Txn.flushAll s.staged s.db = .some d
  seen : Viewed base s.db
  left : pass.Left now base done d
  credited : ∀ p ∈ done, pass.PaidInFull p → 0 < p.amountPaise

/-- A row that the pass has yet to come to. -/
structure Next (pass : Pass) (now : Time) (base : Db) (done : List Payment) (p : Payment) : Prop where
  ids : (base.payments.map (·.publicId)).Nodup
  owned : base.Owned
  row : p ∈ pass.rows now base
  fresh : p ∉ done

end Pass

section

variable {pass : Pass} {now : Time} {base d : Db} {p : Payment} {done : List Payment} {s : Session}
  {E : Err → Session → Prop}

theorem Viewed.owner (h : Viewed base d) {u : Int} (hu : (base.users u).isSome = true) :
    (d.users u).isSome = true := by
  obtain ⟨row, hrow⟩ := Option.isSome_iff_exists.mp hu
  obtain ⟨row', hrow', -⟩ := h.house.user hrow
  rw [hrow']
  rfl

theorem Viewed.found (h : Viewed base d) (hp : p ∈ base.payments) :
    ∃ row, d.findPayment p.publicId = .some row := by
  have hmem : p.publicId ∈ d.payments.map (·.publicId) := h.ids ▸ List.mem_map_of_mem hp
  obtain ⟨q, hq, hid⟩ := List.mem_map.mp hmem
  refine Option.isSome_iff_exists.mp ?_
  rw [Db.findPayment, List.find?_isSome]
  exact ⟨q, hq, beq_iff_eq.mpr hid⟩

namespace Pass

theorem Next.mem (h : pass.Next now base done p) : p ∈ base.payments := (mem_rows h.row).1

theorem Next.selected (h : pass.Next now base done p) : pass.selects now p = true := (mem_rows h.row).2

theorem Next.owner (h : pass.Next now base done p) : (base.users p.userId).isSome = true := h.owned p h.mem

theorem Left.start (pass : Pass) (now : Time) (base : Db) : pass.Left now base [] base := by
  refine ⟨?_, .refl base, id⟩
  have hid : pass.turned now [] = id := by
    funext p
    exact if_neg List.not_mem_nil
  rw [hid, List.map_id]

theorem Left.viewed (h : pass.Left now base done d) : Viewed base d := by
  refine ⟨h.house, ?_⟩
  rw [h.payments, List.map_map]
  exact List.map_congr_left fun p _ => turned_sameInvoice.publicId

/-- Changes of other tables. -/
theorem Left.quiet {d' : Db} (h : pass.Left now base done d) (hp : d'.payments = d.payments)
    (hh : d.SameHouse d') (hpay : d.Payable → d'.Payable) : pass.Left now base done d' :=
  ⟨hp.trans h.payments, h.house.trans hh, fun hb => hpay (h.payable hb)⟩

/-- A payment that stays as it is has had its turn too. -/
theorem Left.same (h : pass.Left now base done d) (hturn : pass.turn now p = p) :
    pass.Left now base (done ++ [p]) d := by
  refine ⟨?_, h.house, h.payable⟩
  rw [h.payments]
  refine List.map_congr_left fun q _ => ?_
  simp only [turned, List.mem_append, List.mem_singleton]
  by_cases hq : q = p
  · subst hq
    simp [hturn]
  · simp [hq]

/-- The row of one more payment is set. -/
theorem Left.set (h : pass.Left now base done d) (hp : pass.Next now base done p) {f : Payment → Payment}
    (hf : f p = pass.turn now p) :
    pass.Left now base (done ++ [p]) (d.updatePayment p.publicId (p.flushed (f p))) := by
  rw [hf]
  have hflush : p.flushed (pass.turn now p) p = pass.turn now p := Payment.flushed_self turn_sameInvoice
  refine ⟨?_, ⟨h.house.catalog, h.house.resellers, h.house.codes, h.house.people⟩,
    fun hb => ⟨(h.payable hb).keyed, (h.payable hb).covered⟩⟩
  simp only [Db.updatePayment, h.payments, List.map_map]
  refine List.map_congr_left fun q hq => ?_
  have hid : (pass.turned now done q).publicId = q.publicId := turned_sameInvoice.publicId
  simp only [Function.comp_apply, hid]
  by_cases hqp : q.publicId = p.publicId
  · obtain rfl : q = p := List.inj_on_of_nodup_map hp.ids hq hp.mem hqp
    simp [turned, hp.fresh, hflush]
  · have hne : q ≠ p := fun he => hqp (he ▸ rfl)
    simp [turned, hqp, hne]

/-! ## Steps of the session -/

theorem At.start (pass : Pass) (now : Time) (base : Db) : pass.At now base [] base { db := base } :=
  ⟨rfl, ⟨.refl base, rfl⟩, .start pass now base, by simp⟩

/-- Something is written to another table. -/
theorem At.stage (h : pass.At now base done d s) {w : Stmt} (hw : w.admits d = true)
    (hp : (w.apply d).payments = d.payments) (hh : d.SameHouse (w.apply d))
    (hpay : d.Payable → (w.apply d).Payable) :
    pass.At now base done (w.apply d) { s with staged := s.staged ++ [w] } := by
  refine ⟨?_, h.seen, h.left.quiet hp hh hpay, h.credited⟩
  simp only [Txn.flushAll_append, h.flush]
  exact if_pos hw

theorem At.flushed (h : pass.At now base done d s) : pass.At now base done d { s with db := d, staged := [] } :=
  ⟨rfl, h.left.viewed, h.left, h.credited⟩

theorem At.audited (h : pass.At now base done d s) (a : AuditLog) :
    pass.At now base done ((Stmt.insertAudit a).apply d)
      { s with staged := s.staged ++ [Stmt.insertAudit a] } :=
  h.stage rfl rfl ⟨rfl, rfl, rfl, fun _ => rfl⟩ fun hb => ⟨hb.keyed, hb.covered⟩

theorem wp_auditAt {actor action : String} {target reason : Option String} {Q : Unit → Session → Prop}
    (h : pass.At now base done d s) (hQ : ∀ d' s', pass.At now base done d' s' → s'.sent = s.sent → Q () s') :
    (audit now actor action target reason).wp Q E s := by
  simp only [audit, wp_bind, wp_write]
  exact wp_flush (h.audited _).flush (hQ _ _ (h.audited _).flushed rfl)

theorem At.posted {q : Posting} {key : Key} {e : LedgerEntry} (h : pass.At now base done d s)
    (he : Posts d q .credit key (creditDraft q.amountPaise) e) :
    pass.At now base done (d.posted e) { s with db := d.posted e, staged := [] } := by
  have hleft : pass.Left now base done (d.posted e) :=
    h.left.quiet rfl (.posted (.refl d) e) fun hb => hb.posted he
  exact ⟨rfl, hleft.viewed, hleft, h.credited⟩

/-- A credit of the pass, which it can only fail to make if the pass is not clear. -/
theorem wp_creditAt {q : Posting} {key : Key} {Q : LedgerEntry → Session → Prop} (h : pass.At now base done d s)
    (hkey : ∀ k, Key.orElse (.some key) k = key) (hpos : pass.Clears now base → 0 < q.amountPaise)
    (hu : pass.Clears now base → (base.users q.userId).isSome = true)
    (hQ : 0 < q.amountPaise → ∀ e d' s', pass.At now base done d' s' → s'.sent = s.sent → Q e s') :
    (credit q (.some key)).wp Q (fun _ _ => ¬ pass.Clears now base) s := by
  rw [credit, hkey]
  refine wp_post h.flush (fun hn hc => hn (hpos hc)) (fun err hr hc => ?_)
    (fun e hp _ => hQ hp e _ _ h.flushed rfl) fun e he => hQ he.pos e _ _ (h.posted he) rfl
  exact (h.left.payable hc.payable).not_refused (hpos hc) (h.left.viewed.owner (hu hc)) hr

theorem At.credited_next (h : pass.At now base done d s) (hcred : pass.PaidInFull p → 0 < p.amountPaise) :
    ∀ q ∈ done ++ [p], pass.PaidInFull q → 0 < q.amountPaise := by
  intro q hq
  rcases List.mem_append.mp hq with hq | hq
  · exact h.credited q hq
  · obtain rfl := List.mem_singleton.mp hq
    exact hcred

theorem At.same (h : pass.At now base done d s) (hturn : pass.turn now p = p)
    (hcred : pass.PaidInFull p → 0 < p.amountPaise) : pass.At now base (done ++ [p]) d s :=
  ⟨h.flush, h.seen, h.left.same hturn, h.credited_next hcred⟩

/-- The row of a payment is set to what its turn makes of it. -/
theorem wp_setAt {f : Payment → Payment} {Q : Payment → Session → Prop} (h : pass.At now base done d s)
    (hp : pass.Next now base done p) (hf : f p = pass.turn now p)
    (hcred : pass.PaidInFull p → 0 < p.amountPaise)
    (hQ : ∀ d' s', pass.At now base (done ++ [p]) d' s' → s'.sent = s.sent → Q (f p) s') :
    (setPayment p f).wp Q E s := by
  simp only [setPayment, wp_bind, wp_write, wp_pure']
  refine hQ (d.updatePayment p.publicId (p.flushed (f p))) _ ?_ rfl
  refine ⟨?_, h.seen, h.left.set hp hf, h.credited_next hcred⟩
  simp only [Txn.flushAll_append, h.flush]
  rfl

/-- The deposit of a payment reported as the invoice has it. -/
theorem wp_creditDepositAt {Q : Payment × SettleOutcome → Session → Prop} (h : pass.At now base done d s)
    (hp : pass.Next now base done p) {status : GatewayStatus}
    (hturn : p.settled now (pass.report status p) = pass.turn now p) (hpaid : pass.PaidInFull p)
    (hQ : ∀ x d' s', pass.At now base (done ++ [p]) d' s' → s'.sent = s.sent → Q x s') :
    (creditDeposit now p (pass.report status p)).wp Q (fun _ _ => ¬ pass.Clears now base) s := by
  have howner : (s.db.users p.userId).isSome = true := h.seen.owner hp.owner
  obtain ⟨user, huser⟩ := Option.isSome_iff_exists.mp howner
  simp only [creditDeposit, wp_bind, wp_query, huser]
  refine wp_creditAt h (fun _ => rfl) (fun hc => hc.amounts p hp.row hpaid) (fun _ => hp.owner) ?_
  intro hpos _ d₁ s₁ h₁ hs₁
  refine wp_setAt h₁ hp hturn (fun _ => hpos) fun d₂ s₂ h₂ hs₂ => ?_
  have hdone : ∀ d₃ s₃, pass.At now base (done ++ [p]) d₃ s₃ → s₃.sent = s₂.sent →
      (audit now (pass.report status p).actor "payment.credited" (.some p.publicId) .none).wp
        (fun _ s' => Q (p.settled now (pass.report status p), p.outcome .credited (.some p.amountPaise)) s')
        (fun _ _ => ¬ pass.Clears now base) s₃ := fun d₃ s₃ h₃ hs₃ =>
    wp_auditAt h₃ fun d₄ s₄ h₄ hs₄ => hQ _ d₄ s₄ h₄ (hs₄.trans (hs₃.trans (hs₂.trans hs₁)))
  refine wp_creditDepositCommission_share (hdone d₂ s₂ h₂ rfl) fun id referrer _ href _ _ hshare _ => ?_
  refine wp_creditAt h₂ (fun _ => rfl) (fun _ => hshare) (fun hc => ?_)
    fun _ _ d₃ s₃ h₃ hs₃ => hdone d₃ s₃ h₃ hs₃
  -- the referrer is found under his own id
  have hkey : referrer.telegramId = id := (hc.payable.keyed.sameHouse h₂.seen.house) id referrer href
  obtain ⟨row, hbase, -⟩ := h₂.seen.house.symm.user href
  show (base.users referrer.telegramId).isSome = true
  rw [hkey, hbase]
  rfl

/-- A payment reported paid is settled, or held if the report does not match. -/
theorem wp_settleLockedAt {status : GatewayStatus} {Q : Payment × SettleOutcome → Session → Prop}
    (h : pass.At now base done d s) (hp : pass.Next now base done p) (ha : pass.answers p.publicId = .ok status)
    (hs : status.state = .paid)
    (hQ : ∀ x d' s', pass.At now base (done ++ [p]) d' s' → s'.sent = s.sent → Q x s') :
    (settleLocked now p (pass.report status p)).wp Q (fun _ _ => ¬ pass.Clears now base) s := by
  have hsel : pass.selects now p = true := hp.selected
  have hgateway : (pass.report status p).wrongGateway p = false := by
    simp [Report.wrongGateway, report, GatewayStatus.report, (selects_iff.mp hsel).1]
  have href : (pass.report status p).wrongRef p = false := by
    simp [Report.wrongRef, report, GatewayStatus.report]
  simp only [settleLocked, hgateway, href, Bool.false_eq_true, if_false, if_neg (selects_unpaid hsel)]
  split
  · next hm =>
    have hnot : pass.PaidInFull p → 0 < p.amountPaise := by
      rintro ⟨status', hok, -, hfull⟩
      rw [ha] at hok
      cases hok
      rw [mismatch_iff.mpr hfull] at hm
      cases hm
    simp only [holdForReview, wp_bind]
    refine wp_setAt h hp ?_ hnot fun d₁ s₁ h₁ hs₁ => ?_
    · simp only [turn, ha, hs, if_pos hm]
    · exact wp_auditAt h₁ fun d₂ s₂ h₂ hs₂ => hQ _ d₂ s₂ h₂ (hs₂.trans hs₁)
  · next hm =>
    rw [Bool.not_eq_true] at hm
    refine wp_creditDepositAt h hp ?_ ⟨status, ha, hs, mismatch_iff.mp hm⟩ hQ
    simp only [turn, ha, hs, hm, Bool.false_eq_true, if_false]

/-- What the gateway's answer on a selected payment does. -/
theorem wp_applyAnswerAt {Q : Option Payment × Option SettleOutcome → Session → Prop}
    (h : pass.At now base done d s) (hp : pass.Next now base done p)
    (hQ : ∀ x d' s', pass.At now base (done ++ [p]) d' s' → s'.sent = s.sent → Q x s') :
    (applyAnswer now pass.gateway "reconcile" p (pass.answers p.publicId)).wp Q
      (fun _ _ => ¬ pass.Clears now base) s := by
  cases ha : pass.answers p.publicId with
  | error e =>
    refine hQ _ d s (h.same ?_ fun ⟨_, hok, _⟩ => ?_) rfl
    · simp only [turn, ha]
    · rw [ha] at hok
      cases hok
  | ok status =>
    have hpaid (hs : status.state ≠ .paid) : pass.PaidInFull p → 0 < p.amountPaise := by
      rintro ⟨status', hok, hs', -⟩
      rw [ha] at hok
      cases hok
      exact absurd hs' hs
    simp only [applyAnswer]
    cases hs : status.state with
    | paid =>
      obtain ⟨found, hfound⟩ := h.seen.found hp.mem
      have hlock : s.db.findPayment (status.report pass.gateway "reconcile" p).publicId = .some found := hfound
      simp only [wp_bind, settlePayment, lockPayment, wp_lockRow, hlock, Option.map_some, Option.getD_some]
      exact wp_settleLockedAt h hp ha hs fun x d' s' h' hs' => hQ _ d' s' h' hs'
    | expired =>
      simp only
      split
      · next hpend =>
        simp only [wp_bind]
        refine wp_setAt h hp ?_ (hpaid (by simp [hs])) fun d' s' h' hs' => hQ _ d' s' h' hs'
        simp only [turn, ha, hs, if_pos hpend]
      · next hpend =>
        refine hQ _ d s (h.same ?_ (hpaid (by simp [hs]))) rfl
        simp only [turn, ha, hs, if_neg hpend]
    | pending =>
      refine hQ _ d s (h.same ?_ (hpaid (by simp [hs]))) rfl
      simp only [turn, ha, hs]

/-- What is asked about a payment. -/
def question (p : Payment) : Ext := .fetchStatus (p.providerRef.getD "")

/-- **What one pass does**: every row it selects is asked about and has its
turn, unless the pass is not clear. -/
theorem wp_reconcilePendingAt (pass : Pass) (now : Time) (hids : (base.payments.map (·.publicId)).Nodup)
    (hown : base.Owned) : (reconcilePending now pass).wp
      (fun _ s => (∃ d, pass.At now base (pass.rows now base) d s) ∧ s.sent = (pass.rows now base).map question)
      (fun _ _ => ¬ pass.Clears now base) { db := base } := by
  simp only [reconcilePending, wp_bind, wp_query]
  have hnodup : (pass.rows now base).Nodup :=
    (hids.of_map _).sublist ((List.take_sublist _ _).trans List.filter_sublist)
  -- `done` are the rows that have had their turn, `rest` those that have not
  let I (rest : List Payment) (s : Session) : Prop :=
    ∃ done, pass.rows now base = done ++ rest ∧ (∃ d, pass.At now base done d s) ∧ s.sent = done.map question
  have hstart : I (pass.rows now base) { db := base } := ⟨[], rfl, ⟨base, .start pass now base⟩, rfl⟩
  refine wp_mono (wp_collect hstart fun p rest s hI => ?_) (fun _ s hI => ?_) fun _ _ he => he
  · obtain ⟨done, hsplit, ⟨d, h⟩, hsent⟩ := hI
    have hnext : pass.Next now base done p := by
      refine ⟨hids, hown, hsplit ▸ List.mem_append_right _ List.mem_cons_self, fun hp => ?_⟩
      rw [hsplit] at hnodup
      exact (List.nodup_append.mp hnodup).2.2 p hp p List.mem_cons_self rfl
    simp only [reconcilePayment, askGateway, wp_bind, wp_call]
    have hcall : pass.At now base done d { s with sent := s.sent ++ [question p] } :=
      ⟨h.flush, h.seen, h.left, h.credited⟩
    refine wp_applyAnswerAt hcall hnext fun x d' s' h' hs' => ?_
    refine ⟨done ++ [p], by rw [hsplit, List.append_assoc, List.singleton_append], ⟨d', h'⟩, ?_⟩
    rw [hs', hsent, List.map_append]
    rfl
  · obtain ⟨done, hsplit, hat, hsent⟩ := hI
    rw [List.append_nil] at hsplit
    exact ⟨hsplit ▸ hat, hsplit ▸ hsent⟩

end Pass

end

/-! ## Passes, committed -/

namespace Pass

/-- The payment's age is one the pass looks at. -/
def inWindow (pass : Pass) (now : Time) (p : Payment) : Bool :=
  p.createdAt ≤ now - pass.minAgeSeconds * microseconds &&
    now - pass.maxAgeHours * 3600 * microseconds ≤ p.createdAt

/-- At `t` the invoices are in the window that were in it at `now`. -/
def SameWindow (pass : Pass) (now t : Time) (db : Db) : Prop :=
  ∀ p ∈ db.payments, pass.inWindow t p = pass.inWindow now p

/-- Those that are eligible, in the order of their ids. -/
def queue (pass : Pass) (now : Time) (db : Db) : List String :=
  (db.payments.filter (pass.selects now)).map (·.publicId)

/-- The tables after one pass, which is rolled back if it raises. -/
def ran (pass : Pass) (now : Time) (db : Db) : Db :=
  (PaymentCall.reconcile now pass).prog.commit (fun _ => false) db

/-- The tables after passes at these times. -/
def repeated (pass : Pass) (times : List Time) (db : Db) : Db := times.foldl (fun db t => pass.ran t db) db

/-- The pass asks the gateway about the payment. -/
def Asks (pass : Pass) (now : Time) (db : Db) (publicId : String) : Prop :=
  ∃ p ∈ pass.rows now db, p.publicId = publicId ∧
    question p ∈ ((reconcilePending now pass).run { db := db }).2.sent

/-- One of the passes does. -/
def AskedDuring (pass : Pass) (publicId : String) : List Time → Db → Prop
  | [], _ => False
  | t :: times, db => pass.Asks t db publicId ∨ pass.AskedDuring publicId times (pass.ran t db)

/-- What a pass leaves behind: its work, or nothing. -/
inductive Ends (pass : Pass) (now : Time) (base : Db) : Db → Prop
  | done {d} : pass.Left now base (pass.rows now base) d →
      (∀ p ∈ pass.rows now base, pass.PaidInFull p → 0 < p.amountPaise) → Ends pass now base d
  | undone : ¬ pass.Clears now base → Ends pass now base base

end Pass

section

variable {pass : Pass} {now t : Time} {base d db : Db} {p : Payment} {pid : String} {times : List Time}

namespace Pass

theorem ran_ends (hids : (base.payments.map (·.publicId)).Nodup) (hown : base.Owned) :
    pass.Ends t base (pass.ran t base) := by
  have hrun : (PaymentCall.reconcile t pass).prog.wp (fun _ s => ∃ d, pass.At t base (pass.rows t base) d s)
      (fun _ _ => ¬ pass.Clears t base) { db := base } := by
    simp only [PaymentCall.prog, wp_bind]
    exact wp_mono (wp_reconcilePendingAt pass t hids hown) (fun _ _ h => h.1) fun _ _ h => h
  unfold ran Txn.Prog.commit
  split
  · next hr =>
    obtain ⟨d, h⟩ := wp_ok hrun hr
    rw [h.flush]
    exact .done h.left h.credited
  · next hr =>
    rw [if_neg Bool.false_ne_true]
    exact .undone (wp_error hrun hr)

theorem SameWindow.selects (h : pass.SameWindow now t base) (hp : p ∈ base.payments) :
    pass.selects t p = pass.selects now p := by
  have hw : pass.inWindow t p = pass.inWindow now p := h p hp
  unfold inWindow at hw
  simp only [Pass.selects, Bool.and_assoc, hw]

theorem SameWindow.rows (h : pass.SameWindow now t base) : pass.rows t base = pass.rows now base := by
  rw [Pass.rows, Pass.rows, List.filter_congr fun p hp => h.selects hp]

/-- The window depends on when the invoices were created. -/
theorem Left.sameWindow {done : List Payment} {t' : Time} (h : pass.Left t base done d)
    (hw : pass.SameWindow now t' base) : pass.SameWindow now t' d := by
  intro q hq
  rw [h.payments] at hq
  obtain ⟨p, hp, rfl⟩ := List.mem_map.mp hq
  have hcreated : (pass.turned t done p).createdAt = p.createdAt :=
    (congrArg Payment.createdAt turned_sameInvoice :)
  simp only [inWindow, hcreated]
  exact hw p hp

theorem rows_ids : (pass.rows now base).map (·.publicId) = (pass.queue now base).take pass.limit := by
  rw [rows, queue, List.map_take]

theorem queue_nodup (h : (base.payments.map (·.publicId)).Nodup) : (pass.queue now base).Nodup :=
  h.sublist (List.filter_sublist.map _)

/-- **A pass sweeps the queue**: those in front are asked about, and of these
the ones that are not reported paid stay where they are. -/
theorem queue_swept (hids : (base.payments.map (·.publicId)).Nodup) (hw : pass.SameWindow now t base)
    (h : pass.Left t base (pass.rows t base) d) :
    pass.queue now d = Queue.sweep (fun pid => !pass.reportsPaid pid) pass.limit (pass.queue now base) := by
  have hnodup : base.payments.Nodup := hids.of_map _
  have hafter (p : Payment) (hp : p ∈ base.payments) : pass.selects now (pass.turned t (pass.rows t base) p) =
      ((p ∉ pass.rows now base || !pass.reportsPaid p.publicId) && pass.selects now p) := by
    rw [hw.rows, turned]
    split
    · next hrow =>
      have hsel : pass.selects now p = true := (mem_rows hrow).2
      rw [selects_turn hsel, hsel]
      simp [hrow]
    · next hrow => simp [hrow]
  calc pass.queue now d
      = (base.payments.filter fun p =>
          pass.selects now (pass.turned t (pass.rows t base) p)).map (·.publicId) := by
        rw [queue, h.payments, List.filter_map, List.map_map]
        exact List.map_congr_left fun p _ => turned_sameInvoice.publicId
    _ = ((base.payments.filter (pass.selects now)).filter fun p =>
          p ∉ pass.rows now base || !pass.reportsPaid p.publicId).map (·.publicId) := by
        rw [List.filter_filter, List.filter_congr hafter]
    _ = _ := by
        rw [queue, ← Queue.map_sweep, Queue.sweep_eq_filter (hnodup.filter _)]
        rfl

theorem ran_since (pass : Pass) (t : Time) (hb : PaymentBooks True .none base) :
    PaymentBooks True .none (pass.ran t base) ∧ ∀ p ∈ base.payments, ∃ q ∈ (pass.ran t base).payments,
      p.SameInvoice q ∧ (p.status = .paid → q = p) := by
  have h : PaymentsAt ((PaymentCall.reconcile t pass).Pays base) base .none [] (pass.ran t base) :=
    PaymentCall.commit_ends (fun _ he => by cases he) hb (.reconcile t pass)
  exact ⟨h.books, h.since.payments⟩

theorem Left.owned {done : List Payment} (h : pass.Left t base done d) (hown : base.Owned) : d.Owned := by
  intro q hq
  rw [h.payments] at hq
  obtain ⟨p, hp, rfl⟩ := List.mem_map.mp hq
  have huser : (pass.turned t done p).userId = p.userId := turned_sameInvoice.userId
  rw [huser]
  exact h.viewed.owner (hown p hp)

theorem Ends.owned (h : pass.Ends t base d) (hown : base.Owned) : d.Owned := by
  cases h with
  | done h _ => exact h.owned hown
  | undone _ => exact hown

theorem Ends.sameWindow {t' : Time} (h : pass.Ends t base d) (hw : pass.SameWindow now t' base) :
    pass.SameWindow now t' d := by
  cases h with
  | done h _ => exact h.sameWindow hw
  | undone _ => exact hw

/-- A payment that is not selected is left as it is. -/
theorem Left.keeps (h : pass.Left t base (pass.rows t base) d) (hp : p ∈ base.payments)
    (hn : p ∉ pass.rows t base) : p ∈ d.payments := by
  rw [h.payments]
  exact List.mem_map.mpr ⟨p, hp, if_neg hn⟩

/-! ## Where the passes get through -/

/-- Nothing stops any pass. -/
structure Ready (pass : Pass) (now : Time) (db : Db) : Prop where
  books : PaymentBooks True .none db
  payable : db.Payable
  owned : db.Owned
  amounts : ∀ p ∈ db.payments, pass.selects now p = true → pass.PaidInFull p → 0 < p.amountPaise

theorem Ready.clears (h : pass.Ready now base) (hw : pass.SameWindow now t base) : pass.Clears t base := by
  refine ⟨h.payable, fun p hp hpaid => ?_⟩
  rw [hw.rows] at hp
  exact h.amounts p (mem_rows hp).1 (mem_rows hp).2 hpaid

theorem paidInFull_congr {q : Payment} (h : p.SameInvoice q) : pass.PaidInFull q ↔ pass.PaidInFull p := by
  simp only [PaidInFull, h.publicId, h.amountPaise, h.currency]

theorem PaidInFull.reportsPaid (h : pass.PaidInFull p) : pass.reportsPaid p.publicId = true := by
  obtain ⟨status, ha, hs, -⟩ := h
  simp [Pass.reportsPaid, ha, hs]

theorem Ready.ran (h : pass.Ready now base) (hw : pass.SameWindow now t base) :
    pass.Left t base (pass.rows t base) (pass.ran t base) ∧ pass.Ready now (pass.ran t base) := by
  have hends : pass.Ends t base (pass.ran t base) := ran_ends h.books.ids h.owned
  obtain ⟨hbooks, -⟩ := ran_since pass t h.books
  generalize pass.ran t base = d at hends hbooks
  cases hends with
  | undone hn => exact absurd (h.clears hw) hn
  | done hl _ =>
    refine ⟨hl, hbooks, hl.payable h.payable, hl.owned h.owned, fun q hq hsel hpaid => ?_⟩
    rw [hl.payments] at hq
    obtain ⟨p, hp, rfl⟩ := List.mem_map.mp hq
    have hpaid' : pass.PaidInFull p := (paidInFull_congr turned_sameInvoice).mp hpaid
    have hamount : (pass.turned t (pass.rows t base) p).amountPaise = p.amountPaise :=
      turned_sameInvoice.amountPaise
    rw [hamount]
    refine h.amounts p hp ?_ hpaid'
    unfold turned at hsel
    split at hsel
    · next hrow =>
      rw [hw.rows] at hrow
      exact (mem_rows hrow).2
    · exact hsel

/-- After passes at times of the same window, the queue has been swept as often. -/
theorem Ready.repeated (h : pass.Ready now base) (hw : ∀ t ∈ times, pass.SameWindow now t base) :
    pass.Ready now (pass.repeated times base) ∧
      (∀ t, pass.SameWindow now t base → pass.SameWindow now t (pass.repeated times base)) ∧
      pass.queue now (pass.repeated times base) =
        (Queue.sweep (fun pid => !pass.reportsPaid pid) pass.limit)^[times.length] (pass.queue now base) := by
  induction times generalizing base with
  | nil => exact ⟨h, fun _ ht => ht, rfl⟩
  | cons t times ih =>
    have ht : pass.SameWindow now t base := hw t List.mem_cons_self
    obtain ⟨hl, hready⟩ := h.ran ht
    obtain ⟨hready', hw', hqueue⟩ := ih hready fun t' ht' => hl.sameWindow (hw t' (List.mem_cons_of_mem _ ht'))
    refine ⟨hready', fun t' ht' => hw' t' (hl.sameWindow ht'), ?_⟩
    rw [List.length_cons, Function.iterate_succ_apply, ← queue_swept h.books.ids ht hl]
    exact hqueue

/-- Its invoice stays what it is, and a payment that is paid stays as it is. -/
theorem repeated_since (pass : Pass) (times : List Time) (hb : PaymentBooks True .none base)
    (hp : p ∈ base.payments) :
    PaymentBooks True .none (pass.repeated times base) ∧
      ∃ q ∈ (pass.repeated times base).payments, p.SameInvoice q ∧ (p.status = .paid → q = p) := by
  induction times generalizing base p with
  | nil => exact ⟨hb, p, hp, rfl, fun _ => rfl⟩
  | cons t times ih =>
    obtain ⟨hb', hsince⟩ := ran_since pass t hb
    obtain ⟨q, hq, hsame, hpaid⟩ := hsince p hp
    obtain ⟨hbooks, r, hr, hsame', hpaid'⟩ := ih hb' hq
    refine ⟨hbooks, r, hr, hsame.trans hsame', fun hs => ?_⟩
    have hqp : q = p := hpaid hs
    subst hqp
    exact hpaid' hs

theorem askedDuring_append {before after : List Time} (h : pass.Asks t (pass.repeated before base) pid) :
    pass.AskedDuring pid (before ++ t :: after) base := by
  induction before generalizing base with
  | nil => exact .inl h
  | cons u before ih => exact .inr (ih h)

/-- Those in front are asked about. -/
theorem Ready.asks (h : pass.Ready now base) (hw : pass.SameWindow now t base) (hp : p ∈ pass.rows t base) :
    pass.Asks t base p.publicId := by
  refine ⟨p, hp, rfl, ?_⟩
  have hrun := wp_reconcilePendingAt pass t h.books.ids h.owned
  cases hr : (reconcilePending t pass).run { db := base } with
  | mk res s =>
    cases res with
    | error e => exact absurd (h.clears hw) (wp_error hrun hr)
    | ok outcomes =>
      rw [(wp_ok hrun hr).2]
      exact List.mem_map_of_mem hp

end Pass

/-- The payment has been settled: it is paid, and credited once, as its invoice has it. -/
def Db.PaidOut (db : Db) (p : Payment) : Prop :=
  ∃ q, db.findPayment p.publicId = .some q ∧ p.SameInvoice q ∧ q.status = .paid ∧
    ∃ e, db.depositCredits p.publicId = [e] ∧ e.Settles q

namespace Pass

/-- Who is not stuck is asked about, and settled if it is reported as its invoice has it. -/
theorem Ready.recovers (h : pass.Ready now base) (hp : p ∈ base.payments) (hsel : pass.selects now p = true)
    (hfree : ¬ Queue.Stuck (fun pid => !pass.reportsPaid pid) pass.limit p.publicId (pass.queue now base))
    (hw : ∀ t ∈ times, pass.SameWindow now t base) (hlen : base.payments.length ≤ times.length) :
    pass.AskedDuring p.publicId times base ∧ (pass.PaidInFull p → (pass.repeated times base).PaidOut p) := by
  have hin : p.publicId ∈ pass.queue now base := List.mem_map_of_mem (List.mem_filter.mpr ⟨hp, hsel⟩)
  obtain ⟨before, after, hsplit⟩ := List.append_of_mem hin
  have hfew : before.countP (fun pid => !pass.reportsPaid pid) < pass.limit :=
    Nat.not_le.mp fun hn => hfree ⟨before, after, hsplit, hn⟩
  obtain ⟨k, hk, htaken⟩ := Queue.taken p.publicId after hfew
  have hqueue : (pass.queue now base).length ≤ base.payments.length := by
    rw [queue, List.length_map]
    exact List.length_filter_le _ _
  have hlt : k < times.length := by
    rw [hsplit, List.length_append, List.length_cons] at hqueue
    omega
  -- its turn comes with the pass at `t`, after those at the first `k` times
  obtain ⟨t, later, htimes⟩ : ∃ t later, times.drop k = t :: later :=
    ⟨times[k], times.drop (k + 1), List.drop_eq_getElem_cons hlt⟩
  have hall : times = times.take k ++ t :: later := by rw [← htimes, List.take_append_drop]
  have hwt : pass.SameWindow now t base := hw t (hall ▸ List.mem_append_right _ List.mem_cons_self)
  generalize hd : pass.repeated (times.take k) base = d
  obtain ⟨hready, hwin, hswept⟩ : pass.Ready now d ∧
      (∀ t, pass.SameWindow now t base → pass.SameWindow now t d) ∧
      pass.queue now d = (Queue.sweep (fun pid => !pass.reportsPaid pid) pass.limit)^[(times.take k).length]
        (pass.queue now base) := hd ▸ h.repeated fun t' ht' => hw t' (List.mem_of_mem_take ht')
  rw [List.length_take, Nat.min_eq_left (by omega), hsplit] at hswept
  rw [← hswept, ← rows_ids] at htaken
  obtain ⟨q, hq, hqp⟩ := List.mem_map.mp htaken
  rw [← (hwin t hwt).rows] at hq
  have hask : pass.Asks t d p.publicId := hqp ▸ hready.asks (hwin t hwt) hq
  refine ⟨?_, fun hpaid => ?_⟩
  · rw [hall]
    exact askedDuring_append (hd.symm ▸ hask)
  · have hqd : q ∈ d.payments := (mem_rows hq).1
    obtain ⟨-, q₀, hq₀, hsame, -⟩ : PaymentBooks True .none d ∧ ∃ q₀ ∈ d.payments, p.SameInvoice q₀ ∧
        (p.status = .paid → q₀ = p) := hd ▸ repeated_since pass _ h.books hp
    obtain rfl : q₀ = q := List.inj_on_of_nodup_map hready.books.ids hq₀ hqd (hsame.publicId.trans hqp.symm)
    obtain ⟨hleft, hready'⟩ := hready.ran (hwin t hwt)
    have hturn : pass.turn t q₀ ∈ (pass.ran t d).payments := by
      rw [hleft.payments]
      exact List.mem_map.mpr ⟨q₀, hqd, if_pos hq⟩
    have hstatus : (pass.turn t q₀).status = .paid := turn_paid ((paidInFull_congr hsame).mpr hpaid)
    obtain ⟨hbooks, r, hr, -, hkept⟩ := repeated_since pass later hready'.books hturn
    obtain rfl : r = pass.turn t q₀ := hkept hstatus
    have hlast : pass.repeated times base = pass.repeated later (pass.ran t d) := by
      rw [hall, Pass.repeated, List.foldl_append, List.foldl_cons, ← hd]
      rfl
    have hid : (pass.turn t q₀).publicId = p.publicId := turn_sameInvoice.publicId.trans hqp
    rw [hlast]
    refine ⟨pass.turn t q₀, ?_, hsame.trans turn_sameInvoice, hstatus, ?_⟩
    · rw [← hid]
      exact Db.findPayment_of_mem hbooks.ids hr
    · rw [← hid]
      exact (hbooks.paid_iff hr).mp hstatus

/-! ## Where they do not -/

/-- Who is stuck is never asked about. -/
theorem not_askedDuring (hb : PaymentBooks True .none base) (hown : base.Owned)
    (hw : ∀ t ∈ times, pass.SameWindow now t base)
    (hs : Queue.Stuck (fun pid => !pass.reportsPaid pid) pass.limit pid (pass.queue now base)) :
    ¬ pass.AskedDuring pid times base := by
  induction times generalizing base with
  | nil => exact id
  | cons t times ih =>
    have ht : pass.SameWindow now t base := hw t List.mem_cons_self
    have hends : pass.Ends t base (pass.ran t base) := ran_ends hb.ids hown
    obtain ⟨hb', -⟩ := ran_since pass t hb
    have hs' : Queue.Stuck (fun pid => !pass.reportsPaid pid) pass.limit pid
        (pass.queue now (pass.ran t base)) := by
      generalize pass.ran t base = d at hends
      cases hends with
      | done hl _ =>
        rw [queue_swept hb.ids ht hl]
        exact hs.sweep
      | undone _ => exact hs
    rintro (⟨p, hp, rfl, -⟩ | hlater)
    · rw [ht.rows] at hp
      refine hs.not_mem_take (queue_nodup hb.ids) ?_
      rw [← rows_ids]
      exact List.mem_map_of_mem hp
    · have hw' : ∀ t' ∈ times, pass.SameWindow now t' (pass.ran t base) :=
        fun t' ht' => hends.sameWindow (hw t' (List.mem_cons_of_mem _ ht'))
      exact ih hb' (hends.owned hown) hw' hs' hlater

/-- A payment of nothing that is reported paid stays open: a pass that comes to it raises. -/
theorem stays_open (hb : PaymentBooks True .none base) (hown : base.Owned) (hp : p ∈ base.payments)
    (hpaid : pass.PaidInFull p) (hnone : ¬ 0 < p.amountPaise) : p ∈ (pass.repeated times base).payments := by
  induction times generalizing base with
  | nil => exact hp
  | cons t times ih =>
    have hends : pass.Ends t base (pass.ran t base) := ran_ends hb.ids hown
    obtain ⟨hb', -⟩ := ran_since pass t hb
    refine ih hb' (hends.owned hown) ?_
    show p ∈ (pass.ran t base).payments
    generalize pass.ran t base = d at hends
    cases hends with
    | done hl hcredited => exact hl.keeps hp fun hrow => hnone (hcredited p hrow hpaid)
    | undone _ => exact hp

/-- The passes get through: repeated often enough, within the window, they ask
about every eligible invoice and settle every one that is reported as it is. -/
def Recovers (pass : Pass) (now : Time) (db : Db) : Prop :=
  ∃ n, ∀ times : List Time, n ≤ times.length → (∀ t ∈ times, pass.SameWindow now t db) →
    ∀ p ∈ db.payments, pass.selects now p = true →
      pass.AskedDuring p.publicId times db ∧ (pass.PaidInFull p → (pass.repeated times db).PaidOut p)

theorem sameWindow_replicate (n : Nat) : ∀ t ∈ List.replicate n now, pass.SameWindow now t base := by
  intro t ht
  rw [List.eq_of_mem_replicate ht]
  exact fun _ _ => rfl

theorem Recovers.not_stuck (h : pass.Recovers now base) (hb : PaymentBooks True .none base) (hown : base.Owned)
    (hp : p ∈ base.payments) (hsel : pass.selects now p = true) :
    ¬ Queue.Stuck (fun pid => !pass.reportsPaid pid) pass.limit p.publicId (pass.queue now base) := by
  obtain ⟨n, h⟩ := h
  intro hs
  have hasked := (h (List.replicate n now) (by simp) (sameWindow_replicate n) p hp hsel).1
  exact not_askedDuring hb hown (sameWindow_replicate n) hs hasked

theorem Recovers.amounts (h : pass.Recovers now base) (hb : PaymentBooks True .none base) (hown : base.Owned)
    (hp : p ∈ base.payments) (hsel : pass.selects now p = true) (hpaid : pass.PaidInFull p) :
    0 < p.amountPaise := by
  obtain ⟨n, h⟩ := h
  by_contra hnone
  obtain ⟨q, hq, -, hstatus, -⟩ :=
    (h (List.replicate n now) (by simp) (sameWindow_replicate n) p hp hsel).2 hpaid
  have hopen : p ∈ (pass.repeated (List.replicate n now) base).payments := stays_open hb hown hp hpaid hnone
  obtain ⟨hbooks, -⟩ := repeated_since pass (List.replicate n now) hb hp
  rw [Db.findPayment_of_mem hbooks.ids hopen] at hq
  cases hq
  exact selects_unpaid hsel hstatus

end Pass

/-- **A lost webhook is made up for** exactly where fewer invoices that are not
reported paid than one pass looks at come before each eligible one, and no
payment of nothing is reported paid. -/
theorem reconciliation_recovers_iff (hb : PaymentBooks True .none db) (hpay : db.Payable) (hown : db.Owned) :
    pass.Recovers now db ↔ ∀ p ∈ db.payments, pass.selects now p = true →
      ¬ Queue.Stuck (fun pid => !pass.reportsPaid pid) pass.limit p.publicId (pass.queue now db) ∧
        (pass.PaidInFull p → 0 < p.amountPaise) := by
  constructor
  · intro h p hp hsel
    exact ⟨h.not_stuck hb hown hp hsel, h.amounts hb hown hp hsel⟩
  · intro h
    have hready : pass.Ready now db := ⟨hb, hpay, hown, fun p hp hsel => (h p hp hsel).2⟩
    exact ⟨db.payments.length, fun times hlen hw p hp hsel =>
      hready.recovers hp hsel (h p hp hsel).1 hw hlen⟩

end

/-! ## Fifty-one invoices -/

/-- An invoice of customer 7 for ₹500, made an hour after the epoch. -/
def openInvoice (n : Nat) : Payment where
  publicId := toString n
  userId := 7
  amountPaise := 50000
  method := "razorpay"
  status := .pending
  providerRef := .some (toString n)
  currency := "INR"
  checkoutUrl := .none
  failureReason := .none
  idempotencyKey := .pay 7 50000 n
  paidAt := .none
  createdAt := 3600 * microseconds

/-- The invoices of the till. -/
def tillWith (n : Nat) : Db := { till with payments := (List.range n).map openInvoice }

/-- The gateway has the money for the invoice `n`, and for no other. -/
def onlyPaid (n : Nat) : Pass where
  gateway := "razorpay"
  answers pid := .ok (if pid = toString n then ⟨.paid, .some 50000, .some "INR"⟩ else { state := .pending })

theorem tillWith_sound {n : Nat} (hids : ((tillWith n).payments.map (·.publicId)).Nodup) :
    PaymentBooks True .none (tillWith n) ∧ (tillWith n).Payable ∧ (tillWith n).Owned := by
  have hstatus : ∀ p ∈ (tillWith n).payments, p.userId = 7 ∧ p.status ≠ .paid := by
    intro p hp
    obtain ⟨m, -, rfl⟩ := List.mem_map.mp hp
    exact ⟨rfl, by simp [openInvoice]⟩
  refine ⟨⟨hids, by simp [tillWith, till], by simp [tillWith, till], fun p hp => ?_, nofun⟩,
    ⟨?_, ?_⟩, fun p hp => ?_⟩
  · exact .unpaid rfl (hstatus p hp).2
  · intro u row hu
    simp only [tillWith, till] at hu
    split at hu
    · next h7 =>
      cases hu
      exact h7.symm
    · cases hu
  · intro u row hu
    simp only [tillWith, till] at hu
    split at hu
    · cases hu
      decide
    · cases hu
  · rw [(hstatus p hp).1]
    rfl

/-- A pass that looks at two invoices gets to all three: the paid one leaves. -/
theorem reconciliation_recovers_of_second_paid :
    { onlyPaid 1 with limit := 2 }.Recovers (7200 * microseconds) (tillWith 3) := by
  obtain ⟨hb, hpay, hown⟩ := tillWith_sound (n := 3) (by decide +kernel)
  refine (reconciliation_recovers_iff hb hpay hown).mpr fun p hp hsel => ⟨?_, fun _ => ?_⟩
  · revert p
    decide +kernel
  · obtain ⟨m, -, rfl⟩ := List.mem_map.mp hp
    exact show (0 : Int) < 50000 by decide

/-- Fifty invoices that are never paid keep every pass from the one after them, which is. -/
theorem paid_invoice_lost_behind_fifty : PaymentBooks True .none (tillWith 51) ∧ (tillWith 51).Payable ∧
    (tillWith 51).Owned ∧ ¬ (onlyPaid 50).Recovers (7200 * microseconds) (tillWith 51) := by
  obtain ⟨hb, hpay, hown⟩ := tillWith_sound (n := 51) (by decide +kernel)
  refine ⟨hb, hpay, hown, fun h => ?_⟩
  have hin : openInvoice 50 ∈ (tillWith 51).payments := List.mem_map_of_mem (by decide)
  refine h.not_stuck hb hown hin (by decide) ⟨(List.range 50).map toString, [], by decide +kernel, ?_⟩
  decide +kernel

end Falaron
