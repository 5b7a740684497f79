/-
What a cancellation pays.

`request_cancel` takes from the status alone whether the charge is still held
or was captured. That is right for every order whose provider has not called
it pending again after its capture; then the owner's available balance rises
by what is owed, through the entry the claim on the money asks for.
-/
import Falaron.OrderPayback

namespace Falaron

open Txn.Prog hiding pure

/-- From `db` to `d` the owner of the order gets what is left of its charge,
by a release while it was never captured, by a credit otherwise. -/
structure CancelPays (db : Db) (o : Order) (d : Db) : Prop where
  available : ∃ user user', db.users o.userId = .some user ∧ d.users o.userId = .some user' ∧
    user'.availablePaise = user.availablePaise + (o.chargePaise - db.refundedSoFar o)
  released : ofType .capture (db.entriesFor o.publicId) = [] →
    ∃ e, d.ledger = db.ledger ++ [e] ∧ e.orderRef = .some o.publicId ∧ e.entryType = .release
  credited : ofType .capture (db.entriesFor o.publicId) ≠ [] →
    ∃ es, d.ledger = db.ledger ++ es ∧ (∀ e ∈ es, e.orderRef = .some o.publicId ∧ e.entryType = .credit) ∧
      (es.map (·.amountPaise)).sum = o.chargePaise - db.refundedSoFar o

section

variable {db d d' : Db} {o : Order} {e : LedgerEntry}

theorem CancelPays.samePurse (h : CancelPays db o d) (hs : d.SamePurse d') : CancelPays db o d' := by
  refine ⟨?_, ?_, ?_⟩
  · rw [hs.users]
    exact h.available
  · rw [hs.ledger]
    exact h.released
  · rw [hs.ledger]
    exact h.credited

/-- The wallet an entry leaves. -/
theorem Db.posted_wallet {user : User} (hu : db.users e.userId = .some user) :
    ∃ user', (db.posted e).users e.userId = .some user' ∧
      user'.availablePaise = e.balanceAfterPaise - e.reservedAfterPaise :=
  ⟨_, by rw [Db.posted_users, if_pos rfl, hu]; rfl, rfl⟩

/-- A held charge is released as it was reserved. -/
theorem CancelPays.release (hb : OrderBooks True .none db) (ho : o ∈ db.orders)
    (ht : Funds.Trace o.chargePaise (db.entriesFor o.publicId) .held) {reason : String} {key : Key}
    (hp : Posts db (orderPosting o o.chargePaise reason) .release key (releaseDraft o.chargePaise) e) :
    CancelPays db o (db.posted e) := by
  have hc := hb.charges o ho
  obtain ⟨-, hcapture, -, -⟩ := ht.tells hc.le
  have hrefunded : db.refundedSoFar o = 0 := hb.refundedSoFar ho ht
  obtain ⟨user, dr, hu, hdr, he, -⟩ := hp.drafted
  have hcovered := hb.charge_le_reserved trivial ho ht hu
  rw [releaseDraft_eq, if_neg (by omega)] at hdr
  cases hdr
  refine ⟨?_, fun _ => ⟨e, rfl, ?_, ?_⟩, fun hcap => absurd hcapture hcap⟩
  · obtain ⟨user', hu', havail⟩ := Db.posted_wallet (e := e) (by rw [he]; exact hu)
    refine ⟨user, user', hu, by rw [he] at hu' ⊢; exact hu', ?_⟩
    rw [havail, he, hrefunded]
    simp only [Posting.entry, User.availablePaise]
    omega
  · rw [he]
    exact LedgerEntry.orderRef_iff.mpr ⟨rfl, rfl⟩
  · rw [he]
    rfl

/-- The rest of a captured charge is credited. -/
theorem CancelPays.credit (hcap : ofType .capture (db.entriesFor o.publicId) ≠ [])
    {reason : String} {key : Key}
    (hp : Posts db (orderPosting o (o.chargePaise - db.refundedSoFar o) reason) .credit key
      (creditDraft (o.chargePaise - db.refundedSoFar o)) e) : CancelPays db o (db.posted e) := by
  obtain ⟨user, dr, hu, hdr, he, -⟩ := hp.drafted
  cases hdr
  have href : e.orderRef = .some o.publicId := by
    rw [he]
    exact LedgerEntry.orderRef_iff.mpr ⟨rfl, rfl⟩
  refine ⟨?_, fun hnone => absurd hnone hcap, fun _ => ⟨[e], rfl, ?_, ?_⟩⟩
  · obtain ⟨user', hu', havail⟩ := Db.posted_wallet (e := e) (by rw [he]; exact hu)
    refine ⟨user, user', hu, by rw [he] at hu' ⊢; exact hu', ?_⟩
    rw [havail, he]
    simp only [Posting.entry, User.availablePaise]
    omega
  · intro e' he'
    rw [List.mem_singleton.mp he']
    exact ⟨href, by rw [he]; rfl⟩
  · rw [he]
    exact Int.add_zero _

/-- Where all has been credited, nothing is owed. -/
theorem CancelPays.nothing (hb : OrderBooks True .none db) (ho : o ∈ db.orders)
    (hcap : ofType .capture (db.entriesFor o.publicId) ≠ []) (hpaid : db.refundedSoFar o = o.chargePaise) :
    CancelPays db o db := by
  obtain ⟨user, hu⟩ := Option.isSome_iff_exists.mp (hb.owners o ho)
  refine ⟨⟨user, user, hu, hu, by omega⟩, fun hnone => absurd hnone hcap, fun _ => ⟨[], ?_, by simp, ?_⟩⟩
  · exact (List.append_nil _).symm
  · rw [hpaid, Int.sub_self]
    rfl

/-- Nothing stands in the way of a posting that leaves the wallet covered. -/
theorem Refused.elim {p : Posting} {refusal : String} {key : Key} {draft : User → Except Err Draft} {err : Err}
    {user : User} {dr : Draft} (h : Refused db p refusal key draft err) (hpos : 0 < p.amountPaise)
    (hu : db.users p.userId = .some user) (hd : draft user = .ok dr)
    (hcovered : 0 ≤ dr.newReserved ∧ dr.newReserved ≤ dr.newBalance) : False := by
  cases h with
  | amount hn => exact hn hpos
  | missing hn =>
    rw [hn] at hu
    cases hu
  | draft hu' _ he =>
    cases hu'.symm.trans hu
    cases he.symm.trans hd
  | negative hu' _ hd' hn =>
    cases hu'.symm.trans hu
    cases hd'.symm.trans hd
    exact hn ⟨by omega, hcovered.1⟩
  | exceeds hu' _ hd' hn =>
    cases hu'.symm.trans hu
    cases hd'.symm.trans hd
    omega

theorem wp_cancelMoney_pays {sent : List Ext} (hb : OrderBooks True .none db) (hwhole : db.RefundsWhole)
    (ho : o ∈ db.orders) (hst : o.status ∈ OrderStatus.cancelable)
    (hover : o.status ∈ [.pending, .awaitingProvider] → o.providerOrderId = .none) :
    (cancelMoney o).wp (fun _ s => ∃ d, s = { db := d, sent := sent } ∧ d.orders = db.orders ∧ CancelPays db o d)
      (fun _ _ => False) { db := db, sent := sent } := by
  have hlive : o.status ≠ .failed := by rintro hr; rw [hr] at hst; revert hst; decide
  obtain ⟨f, hat, hfits⟩ := AtOrder.load hb ho hlive
  have hc := hb.charges o ho
  obtain ⟨user, hu⟩ := Option.isSome_iff_exists.mp (hb.owners o ho)
  have hcovered := hb.covered _ user hu
  have hreview : o.status ≠ .review := by rintro hr; rw [hr] at hst; revert hst; decide
  simp only [cancelMoney, wp_bind, wp_query, hu, hreview, show ¬ o.chargePaise ≤ 0 by omega, decide_false,
    Bool.or_self, Bool.false_eq_true, if_false]
  have hflushed : Txn.flushAll ([] : List Stmt) db = .some db := rfl
  cases f with
  | unheld => cases hfits
  | released =>
    have hno : ∀ st ∈ OrderStatus.cancelable, st ∉ [OrderStatus.failed, .canceled] := by decide
    exact absurd hfits.1 (hno _ hst)
  | held =>
    rw [if_pos (by simpa [hreview] using hfits.1)]
    simp only [wp_bind]
    refine wp_post hflushed (absurd hc) (fun err href => ?_) (fun e _ he => ?_) fun e he => ?_
    · have hle := hb.charge_le_reserved trivial ho hat.trace hu
      exact href.elim hc hu (releaseDraft_eq _ _) (by simp only [orderPosting]; omega)
    · -- no release has been made of what is held
      have hrelease := hat.entry_of_key rfl he
      obtain ⟨-, -, hnone, -⟩ := hat.trace.tells hc.le
      rw [show Key.entryType (.release o.publicId "cancel") = .release from rfl, hnone] at hrelease
      cases hrelease
    · exact ⟨db.posted e, rfl, rfl, .release hb ho hat.trace he⟩
  | captured r b =>
    have hpaying : o.status ∉ [.pending, .awaitingProvider] := by
      intro hpend
      have hid := hfits.2
      rw [hover hpend] at hid
      cases hid
    rw [if_neg hpaying]
    have hcap : ofType .capture (db.entriesFor o.publicId) ≠ [] := by
      obtain ⟨⟨e, he, -⟩, -⟩ := hat.trace.tells hc.le
      rw [he]
      exact List.cons_ne_nil _ _
    obtain ⟨-, hle⟩ := hb.refundedSoFar_bounds ho
    simp only [wp_bind, refundedSoFar, wp_query]
    split
    · exact ⟨db, rfl, rfl, .nothing hb ho hcap (by omega)⟩
    next howed =>
    have hrest : max 0 (o.chargePaise - db.refundedSoFar o) = o.chargePaise - db.refundedSoFar o := by omega
    have hpos : 0 < o.chargePaise - db.refundedSoFar o := by omega
    simp only [hrest, wp_bind]
    rw [credit, Key.orElse_of_orderRef rfl]
    refine wp_post hflushed (absurd hpos) (fun err href => ?_) (fun e _ he => ?_) fun e he => ?_
    · exact href.elim hpos hu rfl (by simp only [orderPosting]; omega)
    · -- a refund would have left nothing to pay
      obtain ⟨o', ho', hp, hpaid⟩ := hwhole o.publicId "cancel" (.inl (by rw [he]; rfl))
      obtain rfl := List.inj_on_of_nodup_map hb.ids ho' ho hp
      exact absurd hpaid (by omega)
    · exact ⟨db.posted e, rfl, rfl, .credit hcap he⟩

/-- A cancellation pays what is owed, or leaves the tables as they are. -/
theorem requestCancel_pays {now : Time} {publicId : String} {userId : Int} {answer : Except ProviderError Unit}
    (hb : OrderBooks True .none db) (hwhole : db.RefundsWhole)
    (hover : ¬ (OrderCall.cancel now publicId userId answer).Overruns db) :
    (requestCancel now publicId userId answer).wp
      (fun _ s => s.staged = [] ∧ ∃ o ∈ db.orders, o.publicId = publicId ∧ CancelPays db o s.db)
      (fun _ s => s.staged = [] ∧ s.db = db) { db := db } := by
  simp only [requestCancel, wp_bind]
  refine wp_loadOrder ⟨rfl, rfl⟩ fun o hfind ho => wp_loadUser ⟨rfl, rfl⟩ fun user hu => ?_
  simp only [wp_require]
  split
  case isFalse => exact ⟨trivial, trivial⟩
  next hmay =>
  split
  case isFalse => exact ⟨trivial, trivial⟩
  next hcan =>
  split
  case isFalse => exact ⟨trivial, trivial⟩
  next hst =>
  have hst : o.status ∈ OrderStatus.cancelable := by simpa using hst
  -- what comes after the provider's word, or without one
  have hrest (sent : List Ext)
      (hgo : o.hasProviderOrder = true → (db.findProvider o.providerId).isSome = true ∧ answer = .ok ()) :
      (cancelMoney o).wp (fun _ s => (recordEvent now o .canceled "user cancel").wp
        (fun _ s => s.staged = [] ∧ ∃ o ∈ db.orders, o.publicId = publicId ∧ CancelPays db o s.db)
        (fun _ s => s.staged = [] ∧ s.db = db) s)
        (fun _ s => s.staged = [] ∧ s.db = db) { db := db, sent := sent } := by
    have hpend (hp : o.status ∈ [.pending, .awaitingProvider]) : o.providerOrderId = .none := by
      by_contra hid
      exact hover ⟨o, user, hfind, hu, hmay, hcan, hp, Option.isSome_iff_ne_none.mpr hid, hgo⟩
    refine wp_mono (wp_cancelMoney_pays hb hwhole ho hst hpend) ?_ fun _ _ h => h.elim
    rintro _ s ⟨d, rfl, horders, hpays⟩
    have hrow : d.findOrder o.publicId = .some o := by
      rw [Db.findOrder, horders]
      exact Db.findOrder_of_mem hb.ids ho
    refine wp_recordEvent_followed (.settled d sent) (.start hrow) fun d' hsame _ => ?_
    exact ⟨rfl, o, ho, (Db.findOrder_mem hfind).2, hpays.samePurse hsame⟩
  simp only [cancelAtProvider]
  split
  · simp only [wp_bind]
    refine wp_adapterFor ⟨rfl, rfl⟩ fun hprov => ?_
    simp only [wp_call]
    cases answer with
    | error e => exact ⟨rfl, rfl⟩
    | ok _ => exact hrest _ fun _ => ⟨hprov, rfl⟩
  · next hno => exact hrest [] fun hid => absurd hid hno

end

/-- **A cancellation pays exactly what is owed**, in every state of every run
in which no cancellation goes through on a captured order that its provider
has called pending again. If it succeeds, the owner's available balance rises
by what is left of the charge, by a release where the charge was never
captured and by a credit where it was; if it raises, nothing has changed. -/
theorem cancel_pays_what_is_owed {db₀ db : Db} (h₀ : Opening db₀) (h : OrderRun (fun db c => ¬ c.Overruns db) db₀ db)
    {now : Time} {publicId : String} {userId : Int} {answer : Except ProviderError Unit}
    (hc : ¬ (OrderCall.cancel now publicId userId answer).Overruns db) (caught : Err → Bool) :
    (∀ s, (OrderCall.cancel now publicId userId answer).prog.run { db := db } = (.ok (), s) →
      ∃ o ∈ db.orders, o.publicId = publicId ∧
        CancelPays db o ((OrderCall.cancel now publicId userId answer).prog.commit caught db)) ∧
    ∀ e s, (OrderCall.cancel now publicId userId answer).prog.run { db := db } = (.error e, s) →
      (OrderCall.cancel now publicId userId answer).prog.commit caught db = db := by
  have hb : OrderBooks True .none db := (h.sound h₀ fun _ _ _ hc => hc).1
  have hpays : (OrderCall.cancel now publicId userId answer).prog.wp _ _ { db := db } :=
    requestCancel_pays hb (h.refundsWhole h₀) hc
  generalize (OrderCall.cancel now publicId userId answer).prog = p at hpays
  constructor
  · intro s hr
    obtain ⟨hst, hdone⟩ := wp_ok hpays hr
    rw [Txn.Prog.commit, hr]
    simp only [hst, Txn.flushAll, Option.getD_some]
    exact hdone
  · intro e s hr
    obtain ⟨hst, hdb⟩ := wp_error hpays hr
    rw [Txn.Prog.commit, hr]
    simp only [hst, Txn.flushAll, Option.getD_some, hdb, ite_self]

/-- An order of which two fifths were paid back, under way again. -/
def underWay : Db := afterCalls shop [.place 0 "A" 7 (likesFor "a") (.taken "1"),
  .sync 1 "A" (.ok ⟨.partial_, .none, .some 400, OrderStatus.partial_reported⟩),
  .sync 2 "A" (.ok ⟨.inProgress, .none, .none, OrderStatus.inProgress_reported⟩)]

theorem cancel_pays_of_under_way :
    underWay.orders.map (fun o => (o.chargePaise, underWay.refundedSoFar o)) = [(2500, 1000)] ∧
      ∃ o ∈ underWay.orders, o.publicId = "A" ∧
        CancelPays underWay o ((OrderCall.cancel 3 "A" 7 (.ok ())).prog.commit (fun _ => false) underWay) := by
  have hrun : OrderRun (fun db c => ¬ c.Overruns db) shop underWay := OrderRun.start.calls (by simp [OrderCall.Overruns])
  have hstatus : (underWay.findOrder "A").map (·.status) = .some .inProgress := by decide +kernel
  have hc : ¬ (OrderCall.cancel 3 "A" 7 (.ok ())).Overruns underWay := by
    rintro ⟨o, user, ho, -, -, -, hst, -⟩
    rw [ho] at hstatus
    have hrunning : o.status = .inProgress := Option.some.inj hstatus
    rw [hrunning] at hst
    revert hst
    decide
  have hok : ((OrderCall.cancel 3 "A" 7 (.ok ())).prog.run { db := underWay }).1 = .ok () := by decide +kernel
  exact ⟨by decide +kernel, (cancel_pays_what_is_owed shop_opening hrun hc _).1 _ (Prod.ext hok rfl)⟩

/-- The provider calls a captured order pending again: its cancellation
succeeds, and pays nothing of what is owed. -/
theorem cancel_of_pending_again :
    let db := afterCalls shop [.place 0 "A" 7 (likesFor "a") (.taken "1"),
      .sync 1 "A" (.ok ⟨.pending, .none, .none, by decide⟩)]
    let c := OrderCall.cancel 2 "A" 7 (.ok ())
    Opening shop ∧ OrderRun (fun _ _ => True) shop db ∧ (c.prog.run { db := db }).1 = .ok () ∧
      db.orders.map (fun o => (o.chargePaise, db.refundedSoFar o, (ofType .capture (db.entriesFor o.publicId)).length)) =
        [(2500, 0, 1)] ∧
      (db.users 7).map (·.availablePaise) = .some 97500 ∧
      ((c.prog.commit (fun _ => false) db).users 7).map (·.availablePaise) = .some 97500 := by
  intro db c
  exact ⟨shop_opening, OrderRun.start.calls fun _ _ _ => trivial, by decide +kernel, by decide +kernel,
    by decide +kernel, by decide +kernel⟩

end Falaron
