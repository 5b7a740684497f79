/-
The six calls of the order engine, each a transaction of its own.

`OrderCall.wp_prog` is what the runs rest on: a call that begins on sound
books ends on sound books, leaves every order but the one it works on alone,
and raises nothing its caller would commit half done. With the reserves exact
(`strict`) it asks one thing: that the call is not a cancellation that would
release a charge already captured (`Overruns`).
-/
import Falaron.OrderSpecs

namespace Falaron

open Txn.Prog

inductive OrderCall where
  | place (now : Time) (publicId : String) (userId : Int) (request : OrderRequest) (submission : Submission)
  | sync (now : Time) (publicId : String) (answer : Except ProviderError ProviderStatus)
  | refill (now : Time) (publicId : String) (userId : Int) (answer : Except ProviderError String)
  | cancel (now : Time) (publicId : String) (userId : Int) (answer : Except ProviderError Unit)
  | resolve (now : Time) (publicId : String) (releaseFunds : Bool) (attach : Option String) (actor : String)
  | flagStuck (now : Time) (olderThanSeconds : Int) (limit : Nat)

namespace OrderCall

def prog : OrderCall → M Unit
  | .place now publicId userId request submission => do
    let _ ← placeOrder now publicId userId request submission
  | .sync now publicId answer => syncOrderStatus now publicId answer
  | .refill now publicId userId answer => requestRefill now publicId userId answer
  | .cancel now publicId userId answer => requestCancel now publicId userId answer
  | .resolve now publicId releaseFunds attach actor => resolveReviewOrder now publicId releaseFunds attach actor
  | .flagStuck now olderThanSeconds limit => flagStuckOrders now olderThanSeconds limit

/-- A cancellation that goes through on an order the provider reports as
pending again, after its charge was captured. -/
def Overruns (db : Db) : OrderCall → Prop
  | .cancel _ publicId userId answer => ∃ o user, db.findOrder publicId = .some o ∧
      db.users userId = .some user ∧ o.mayBeManagedBy user = true ∧ o.snapshot.isCancelable = true ∧
      o.status ∈ [.pending, .awaitingProvider] ∧ o.providerOrderId.isSome = true ∧
      (o.hasProviderOrder = true → (db.findProvider o.providerId).isSome = true ∧ answer = .ok ())
  | _ => False

end OrderCall

/-- The provider's answer is a definite refusal. -/
def Submission.refused (s : Submission) : Bool :=
  match s.answer with
  | .ok _ => false
  | .error e => !e.ambiguous

theorem Submitted.failed {o : Order} {f : Funds} {submission : Submission} (h : Submitted o f submission.answer)
    (href : submission.refused = true) : o.status = .failed := by
  unfold Submission.refused at href
  cases ha : submission.answer with
  | ok id => simp [ha] at href
  | error e =>
    simp only [ha, Bool.not_eq_true'] at href
    simp only [ha, Submitted, href, Bool.false_eq_true, if_false] at h
    exact h.2

/-- What a call does to the orders: rows change, or one order is placed first. -/
inductive Effect (db : Db) : OrderCall → Db → Prop
  | moved {c db'} : db.Since db' → Effect db c db'
  | placed {now publicId userId request submission o key db'} : db.Fresh o → request.Asks userId key →
      NewKey db key o.idempotencyKey → (db.placed o).Since db' →
      (submission.refused = true → ∃ o' ∈ db'.orders, o'.publicId = o.publicId ∧ o'.status = .failed) →
      Effect db (.place now publicId userId request submission) db'

section

variable {strict : Prop} {db : Db} {sent : List Ext} {o : Order} {f : Funds} {s : Session}

/-- Where a call ends: sound books, once what is pending is written. -/
def Ends (strict : Prop) (db : Db) (c : OrderCall) (s : Session) : Prop :=
  s.Will fun s' => OrderBooks strict .none s'.db ∧ Effect db c s'.db

theorem Working.ends {c : OrderCall} (h : Working strict db sent o f s) (hf : o.Fits f) : Ends strict db c s :=
  h.will.mono fun _ hat => ⟨hat.close hf, .moved hat.since⟩

/-- An error that is not the user's is one a call may end with. -/
theorem wp_internal {α : Type} {p : M α} {Q : α → Session → Prop} (h : p.wp Q (InternalErrors strict sent) s) :
    p.wp Q (CallErrors strict db) s := wp_mono h (fun _ _ h' => h') fun _ _ he => .internal he

theorem Ends.unchanged {c : OrderCall} (hb : OrderBooks strict .none db) : Ends strict db c { db := db } :=
  .of rfl ⟨hb, .moved (.refl db)⟩

/-- The charge of an order with a provider id has been captured. -/
theorem Order.Fits.captured_of (h : o.Fits f) (hid : o.providerOrderId.isSome) : ∃ r b, f = .captured r b := by
  cases f with
  | captured r b => exact ⟨r, b, rfl⟩
  | unheld => cases h
  | held => simp [h.2] at hid
  | released => simp [h.2] at hid

theorem Order.isSome_of_hasProviderOrder (h : o.hasProviderOrder = true) : o.providerOrderId.isSome := by
  cases hid : o.providerOrderId with
  | none => simp [Order.hasProviderOrder, hid] at h
  | some id => rfl

/-- A call begins by loading its order. -/
theorem wp_loadOrder {publicId : String} {Q : Order → Session → Prop} {E : Err → Session → Prop}
    (hE : E (.notFound "Order not found") { db := db })
    (hQ : ∀ o, db.findOrder publicId = .some o → o ∈ db.orders → Q o { db := db }) :
    (loadOrder publicId).wp Q E { db := db } := by
  simp only [loadOrder, wp_bind, wp_query]
  cases ho : db.findOrder publicId with
  | none => exact hE
  | some o => exact hQ o ho (Db.findOrder_mem ho).1

theorem wp_loadUser {userId : Int} {Q : User → Session → Prop} {E : Err → Session → Prop}
    (hE : E .missingRow { db := db }) (hQ : ∀ user, db.users userId = .some user → Q user { db := db }) :
    (loadUser userId).wp Q E { db := db } := by
  simp only [loadUser, wp_bind, wp_query]
  cases hu : db.users userId with
  | none => exact hE
  | some user => exact hQ user hu

theorem wp_adapterFor {providerId : String} {Q : Unit → Session → Prop} {E : Err → Session → Prop}
    (hE : E (.value s!"Unknown provider {providerId}") { db := db })
    (hQ : (db.findProvider providerId).isSome = true → Q () { db := db }) :
    (adapterFor providerId).wp Q E { db := db } := by
  simp only [adapterFor, wp_bind, wp_query]
  cases hp : db.findProvider providerId with
  | none => exact hE
  | some p => exact hQ (by rw [hp]; rfl)

theorem wp_check {c : Bool} {message : String} {Q : Unit → Session → Prop}
    (hQ : c = true → Q () { db := db }) :
    (require c (.order message) : M Unit).wp Q (CallErrors strict db) { db := db } := by
  rw [wp_require]
  split
  · next h => exact hQ h
  · exact .request trivial rfl

theorem syncOrderStatus_ends {now : Time} {publicId : String}
    {answer : Except ProviderError ProviderStatus} (hb : OrderBooks strict .none db) :
    (syncOrderStatus now publicId answer).wp (fun _ => Ends strict db (.sync now publicId answer))
      (CallErrors strict db) { db := db } := by
  simp only [syncOrderStatus, wp_bind]
  refine wp_loadOrder (.request trivial rfl) fun o _ ho => ?_
  simp only [syncOrder]
  split
  · exact .unchanged hb
  next hgo =>
  simp only [Bool.or_eq_true, decide_eq_true_eq, Bool.not_eq_true', not_or, Bool.not_eq_false] at hgo
  obtain ⟨hterm, hid⟩ := hgo
  obtain ⟨f, hat, hf⟩ := AtOrder.load hb ho (by rintro h; exact hterm (by rw [h]; decide))
  obtain ⟨r, b, rfl⟩ := hf.captured_of (Order.isSome_of_hasProviderOrder hid)
  have hset : Settled strict db [] o (.captured r b) { db := db } := ⟨rfl, hat, rfl⟩
  simp only [wp_bind]
  refine wp_adapterFor (.request trivial rfl) fun _ => ?_
  simp only [wp_call]
  have hcalled := (hset.called (.orderStatus (o.providerOrderId.getD ""))).working
  cases answer with
  | error e => exact wp_internal (wp_setOrder hcalled (fun _ => ⟨rfl, rfl, rfl, rfl⟩) fun s' h' => h'.ends hf)
  | ok status => exact wp_internal (wp_applyReport hcalled hf fun o' r' s' hf' h' => h'.ends hf')

theorem requestRefill_ends {now : Time} {publicId : String} {userId : Int}
    {answer : Except ProviderError String} (hb : OrderBooks strict .none db) :
    (requestRefill now publicId userId answer).wp (fun _ => Ends strict db (.refill now publicId userId answer))
      (CallErrors strict db) { db := db } := by
  simp only [requestRefill, wp_bind]
  refine wp_loadOrder (.request trivial rfl) fun o _ ho => ?_
  refine wp_loadUser (.request trivial rfl) fun user _ => ?_
  have hopen := assertRefillsOpen_reads
  generalize assertRefillsOpen = check at hopen
  refine hopen.wp (fun _ => ?_) fun e he => .request he rfl
  refine wp_check fun _ => wp_check fun _ => wp_check fun hst => wp_check fun hid => ?_
  have hst : o.status ∈ OrderStatus.refillable := by simpa using hst
  obtain ⟨f, hat, hf⟩ := AtOrder.load hb ho (by rintro h; rw [h] at hst; revert hst; decide)
  have hsome := Order.isSome_of_hasProviderOrder hid
  obtain ⟨r, b, rfl⟩ := hf.captured_of hsome
  have hset : Settled strict db [] o (.captured r b) { db := db } := ⟨rfl, hat, rfl⟩
  refine wp_adapterFor (.request trivial rfl) fun _ => ?_
  simp only [wp_call]
  have hcalled := (hset.called (.refill (o.providerOrderId.getD ""))).working
  cases answer with
  | error e => exact CallErrors.request trivial rfl
  | ok refillId =>
    simp only [wp_bind]
    refine wp_internal (wp_setOrder hcalled (fun _ => ⟨rfl, rfl, rfl, rfl⟩) fun s₁ h₁ => ?_)
    refine wp_internal (wp_recordEvent h₁ fun s₂ h₂ => h₂.working.ends ⟨?_, hsome⟩)
    show OrderStatus.refilling ∉ [.awaitingProvider, .review]
    decide

/-- A cancellation takes an order's money out of its hold, or pays back what
is left of it. -/
theorem wp_cancelMoney (now : Time) {Q : Unit → Session → Prop} (h : Settled strict db sent o f s) (hf : o.Fits f)
    (hst : o.status ∈ OrderStatus.cancelable)
    (hover : strict → o.status ∈ [.pending, .awaitingProvider] → o.providerOrderId = .none)
    (hQ : ∀ f' s', Order.Fits { o with status := .canceled, updatedAt := now } f' →
      Working strict db sent o f' s' → Q () s') :
    (cancelMoney o).wp Q (InternalErrors strict sent) s := by
  have hc := h.here.charge_pos
  have hcanceled (r : Int) (b : Bool) (hid : o.providerOrderId.isSome) :
      Order.Fits { o with status := .canceled, updatedAt := now } (.captured r b) := by
    refine ⟨?_, hid⟩
    show OrderStatus.canceled ∉ [.awaitingProvider, .review]
    decide
  simp only [cancelMoney, wp_bind, wp_query]
  cases hu : s.db.users o.userId with
  | none =>
    have howner := h.here.books.owners o h.here.mem
    rw [hu] at howner
    cases howner
  | some user =>
  have hreview : o.status ≠ .review := by rintro hr; rw [hr] at hst; revert hst; decide
  simp only [hreview, show ¬ o.chargePaise ≤ 0 by omega, decide_false, Bool.or_self, Bool.false_eq_true, if_false]
  cases f with
  | unheld => cases hf
  | held =>
    have hpend : o.status ∈ [.pending, .awaitingProvider] := by simpa [hreview] using hf.1
    rw [if_pos hpend]
    simp only [wp_bind]
    refine wp_release h.working hc fun _ s₁ h₁ => hQ .released s₁ ⟨?_, hf.2⟩ h₁.working
    show OrderStatus.canceled ∈ [.failed, .canceled]
    decide
  | released =>
    have hno : ∀ st ∈ OrderStatus.cancelable, st ∉ [OrderStatus.failed, .canceled] := by decide
    exact absurd hf.1 (hno _ hst)
  | captured r b =>
    split
    · next hpend =>
      have hns : ¬ strict := fun hs => by
        have hid := hf.2
        rw [hover hs hpend] at hid
        cases hid
      simp only [wp_bind]
      exact wp_release_captured hns h.working hc fun _ b' s₁ h₁ => hQ _ s₁ (hcanceled r b' hf.2) h₁.working
    · simp only [wp_bind, refundedSoFar, wp_query, h.here.refundedSoFar]
      have hr : r = Funds.refunded (.captured r b) := rfl
      split
      · exact hQ _ s (hcanceled r b hf.2) h.working
      · simp only [wp_bind]
        exact wp_credit h.working (by omega) (by omega) h.here.clean rfl rfl
          fun _ r' s₁ h₁ => hQ _ s₁ (hcanceled r' b hf.2) h₁.working

theorem requestCancel_ends {now : Time} {publicId : String} {userId : Int}
    {answer : Except ProviderError Unit} (hb : OrderBooks strict .none db)
    (hover : strict → ¬ (OrderCall.cancel now publicId userId answer).Overruns db) :
    (requestCancel now publicId userId answer).wp (fun _ => Ends strict db (.cancel now publicId userId answer))
      (CallErrors strict db) { db := db } := by
  simp only [requestCancel, wp_bind]
  refine wp_loadOrder (.request trivial rfl) fun o hfind ho => ?_
  refine wp_loadUser (.request trivial rfl) fun user hu => ?_
  refine wp_check fun hmay => wp_check fun hcan => wp_check fun hst => ?_
  have hst : o.status ∈ OrderStatus.cancelable := by simpa using hst
  obtain ⟨f, hat, hf⟩ := AtOrder.load hb ho (by rintro h; rw [h] at hst; revert hst; decide)
  -- what comes after the provider's word, or without one
  have hrest (sent : List Ext) (hset : Settled strict db sent o f { db := db, sent := sent })
      (hgo : o.hasProviderOrder = true → (db.findProvider o.providerId).isSome = true ∧ answer = .ok ()) :
      (cancelMoney o).wp (fun _ s => (recordEvent now o .canceled "user cancel").wp
        (fun _ => Ends strict db (.cancel now publicId userId answer)) (CallErrors strict db) s)
        (CallErrors strict db) { db := db, sent := sent } := by
    have hpend (hs : strict) (hp : o.status ∈ [.pending, .awaitingProvider]) : o.providerOrderId = .none := by
      by_contra hid
      exact hover hs ⟨o, user, hfind, hu, hmay, hcan, hp, Option.isSome_iff_ne_none.mpr hid, hgo⟩
    refine wp_internal (wp_cancelMoney now hset hf hst hpend fun f' s₁ hf₁ h₁ => ?_)
    exact wp_internal (wp_recordEvent h₁ fun s₂ h₂ => h₂.working.ends hf₁)
  have hset : Settled strict db [] o f { db := db } := ⟨rfl, hat, rfl⟩
  simp only [cancelAtProvider]
  split
  · simp only [wp_bind]
    refine wp_adapterFor (.request trivial rfl) fun hprov => ?_
    simp only [wp_call]
    cases answer with
    | error e => exact CallErrors.request trivial rfl
    | ok _ => exact hrest _ (hset.called (.cancel (o.providerOrderId.getD ""))) fun _ => ⟨hprov, rfl⟩
  · next hno => exact hrest [] hset fun hid => absurd hid hno

theorem resolveReviewOrder_ends {now : Time} {publicId actor : String} {releaseFunds : Bool}
    {attach : Option String} (hb : OrderBooks strict .none db) :
    (resolveReviewOrder now publicId releaseFunds attach actor).wp
      (fun _ => Ends strict db (.resolve now publicId releaseFunds attach actor))
      (CallErrors strict db) { db := db } := by
  simp only [resolveReviewOrder, wp_bind]
  refine wp_loadOrder (.request trivial rfl) fun o _ ho => ?_
  refine wp_check fun hst => wp_check fun _ => ?_
  have hst : o.status = .review := by simpa using hst
  obtain ⟨f, hat, hf⟩ := AtOrder.load hb ho (by rw [hst]; decide)
  obtain rfl : f = .held := by
    cases f with
    | held => rfl
    | unheld => cases hf
    | captured r b => simp [Order.Fits, hst] at hf
    | released => simp [Order.Fits, hst] at hf
  have hset : Settled strict db [] o .held { db := db } := ⟨rfl, hat, rfl⟩
  have hc := hat.charge_pos
  simp only [wp_query]
  split
  · exact CallErrors.request trivial rfl
  split
  · simp only [wp_bind]
    refine wp_internal (wp_failAndRelease hset.working hc fun o' s₁ _ hst₁ hid₁ h₁ => ?_)
    refine wp_internal (wp_audit h₁.working fun s₂ h₂ => h₂.working.ends ⟨?_, hid₁.trans hf.2⟩)
    simp [hst₁]
  · simp only [wp_bind]
    refine wp_internal (wp_setOrder hset.working (fun _ => ⟨rfl, rfl, rfl, rfl⟩) fun s₁ h₁ => ?_)
    refine wp_internal (wp_captureCharge h₁ hc fun s₂ h₂ => ?_)
    refine wp_internal (wp_setOrder h₂.working (fun _ => ⟨rfl, rfl, rfl, rfl⟩) fun s₃ h₃ => ?_)
    refine wp_internal (wp_recordEvent h₃ fun s₄ h₄ => ?_)
    refine wp_internal (wp_audit h₄.working fun s₅ h₅ => h₅.working.ends ⟨?_, rfl⟩)
    show OrderStatus.processing ∉ [.awaitingProvider, .review]
    decide

/-- The stuck orders not yet flagged are still as they were found. -/
structure Flagging (strict : Prop) (db : Db) (cutoff : Time) (rows : List Order) (s : Session) : Prop where
  clear : s.staged = []
  books : OrderBooks strict .none s.db
  since : db.Since s.db
  once : (rows.map (·.publicId)).Nodup
  found : ∀ o ∈ rows, o ∈ s.db.orders ∧ o.isStuck cutoff = true

theorem wp_flagStuckOrder {now cutoff : Time} {rows : List Order} (h : Flagging strict db cutoff (o :: rows) s) :
    (flagStuckOrder now o).wp (fun _ => Flagging strict db cutoff rows) (InternalErrors strict s.sent) s := by
  obtain ⟨ho, hstuck⟩ := h.found o (by simp)
  simp only [Order.isStuck, Bool.and_eq_true, decide_eq_true_eq, Option.isNone_iff_eq_none] at hstuck
  obtain ⟨⟨hst, hid⟩, _⟩ := hstuck
  obtain ⟨f, hat, hf⟩ := AtOrder.load h.books ho (by rintro hfail; rw [hfail] at hst; revert hst; decide)
  obtain rfl : f = .held := by
    cases f with
    | held => rfl
    | unheld => cases hf
    | captured r b => simp [Order.Fits, hid] at hf
    | released =>
      have hno : ∀ st ∈ [OrderStatus.pending, .awaitingProvider], st ∉ [OrderStatus.failed, .canceled] := by decide
      exact absurd hf.1 (hno _ hst)
  have hset : Settled strict s.db s.sent o .held s := ⟨h.clear, hat, rfl⟩
  simp only [flagStuckOrder, wp_bind]
  refine wp_setOrder hset.working (fun _ => ⟨rfl, rfl, rfl, rfl⟩) fun s₁ h₁ => ?_
  refine wp_recordEvent h₁ fun s₂ h₂ => wp_audit h₂.working fun s₃ h₃ => ?_
  have honce := List.nodup_cons.mp (List.map_cons ▸ h.once)
  refine ⟨h₃.clear, h₃.here.close ⟨?_, hid⟩, h.since.trans h₃.here.since, honce.2, fun o' ho' => ?_⟩
  · show OrderStatus.review ∈ [.pending, .awaitingProvider, .review]
    decide
  · obtain ⟨hm, hstuck'⟩ := h.found o' (by simp [ho'])
    refine ⟨h₃.here.others o' hm fun hp => honce.1 ?_, hstuck'⟩
    exact List.mem_map.mpr ⟨o', ho', hp⟩

theorem flagStuckOrders_ends {now : Time} {olderThanSeconds : Int} {limit : Nat}
    (hb : OrderBooks strict .none db) :
    (flagStuckOrders now olderThanSeconds limit).wp
      (fun _ => Ends strict db (.flagStuck now olderThanSeconds limit)) (CallErrors strict db) { db := db } := by
  simp only [flagStuckOrders, wp_bind, wp_query]
  generalize hcut : now - olderThanSeconds * microseconds = cutoff
  generalize hrows : (db.orders.filter (·.isStuck cutoff)).take limit = rows
  have hsub : rows.Sublist db.orders := hrows ▸ (List.take_sublist _ _).trans List.filter_sublist
  have hstart : Flagging strict db cutoff rows { db := db } := by
    refine ⟨rfl, hb, .refl db, hb.ids.sublist (hsub.map _), fun o ho => ⟨hsub.subset ho, ?_⟩⟩
    rw [← hrows] at ho
    exact (List.mem_filter.mp (List.mem_of_mem_take ho)).2
  have hloop : (forEach (flagStuckOrder now) rows).wp _ (CallErrors strict db) { db := db } :=
    wp_forEach hstart fun o rows s h => wp_internal (wp_flagStuckOrder h)
  exact wp_mono hloop (fun _ s h => .of h.clear ⟨h.books, .moved h.since⟩) fun _ _ he => he

theorem Placed.ends {now : Time} {publicId : String} {userId : Int} {request : OrderRequest}
    {submission : Submission} {s : Session} (hb : OrderBooks strict .none db)
    (h : Placed strict db publicId userId request submission o s) :
    Ends strict db (.place now publicId userId request submission) s := by
  cases h with
  | replayed hs _ =>
    subst hs
    exact .unchanged hb
  | booked hfresh hp₀ hasks hn hp hf hw hsub =>
    refine hw.will.mono fun s' hat => ⟨hat.close hf, .placed hfresh hasks hn hat.since fun href => ?_⟩
    refine ⟨o, hat.mem, hp.trans hp₀.symm, ?_⟩
    rcases hsub with hsub | hsub
    · exact hsub.2.2
    · exact hsub.failed href

theorem placeOrder_ends {now : Time} {publicId : String} {userId : Int} {request : OrderRequest}
    {submission : Submission} (hb : OrderBooks strict .none db) (hk : OrderKeys db) :
    (OrderCall.place now publicId userId request submission).prog.wp
      (fun _ => Ends strict db (.place now publicId userId request submission))
      (CallErrors strict db) { db := db } := by
  simp only [OrderCall.prog, wp_bind]
  exact wp_mono (wp_placeOrder hb hk) (fun o s h => h.ends hb) fun e s he => he.1

end

namespace OrderCall

variable {strict : Prop} {db : Db} {c : OrderCall}

/-- Every call keeps the books. -/
theorem wp_prog (hb : OrderBooks strict .none db) (hk : OrderKeys db) (hc : strict → ¬ c.Overruns db) :
    c.prog.wp (fun _ => Ends strict db c) (CallErrors strict db) { db := db } := by
  cases c with
  | place => exact placeOrder_ends hb hk
  | sync => exact syncOrderStatus_ends hb
  | refill => exact requestRefill_ends hb
  | cancel => exact requestCancel_ends hb hc
  | resolve => exact resolveReviewOrder_ends hb
  | flagStuck => exact flagStuckOrders_ends hb

/-- What its caller commits, whichever of the user's errors it commits after. -/
theorem commit_ends {caught : Err → Bool} (hcaught : ∀ e, caught e = true → e.userFacing = true)
    (hb : OrderBooks strict .none db) (hk : OrderKeys db) (hc : strict → ¬ c.Overruns db) :
    OrderBooks strict .none (c.prog.commit caught db) ∧ Effect db c (c.prog.commit caught db) := by
  let P (db' : Db) : Prop := OrderBooks strict .none db' ∧ Effect db c db'
  have h₀ : P db := ⟨hb, .moved (.refl db)⟩
  have hok (s : Session) (h : Ends strict db c s) : P ((Txn.flushAll s.staged s.db).getD db) :=
    Txn.Session.Will.commit h h₀ fun _ h' => h'
  refine commit_of_wp (P := P) h₀ (wp_mono (wp_prog hb hk hc) (fun _ => hok) fun e s he hce => ?_)
  obtain ⟨hdb, hst⟩ := he.1 (hcaught e hce)
  rw [hdb, hst]
  exact h₀

end OrderCall

end Falaron
