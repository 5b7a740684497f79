/-
Taps: calls that place an order for one user, side by side.

Each call reads and checks its request first, then locks the user's row, and
only then looks the key up, books the order and asks the provider. So the
calls of one user take turns from the lock on (`Txn.Sys.Run.turn`), and the
second of two taps finds the order of the first. What a call says, to the
provider and to its user, is on record in the order it is said.
-/
import Falaron.OrderRun
import Falaron.OrderWrites
import Falaron.Txn.Serial

namespace Falaron

open Txn.Prog hiding pure
open Txn.Sys (Run Serves Leaves serves_reported)

/-- What a call says: to the provider, and the order it returns. -/
abbrev Said := Ext ⊕ Order

/-- One call of `place_order`. -/
structure Tap where
  now : Time
  publicId : String
  request : OrderRequest
  submission : Submission

namespace Tap

def code (userId : Int) (c : Tap) : Txn.Prog Db Row Err Said Unit :=
  (placeOrder c.now c.publicId userId c.request c.submission).reported

/-- Whatever the call reads of tables with `D`, it looks its order up under `k`. -/
def Resolves (D : Db → Prop) (userId : Int) (k : Key) (c : Tap) : Prop :=
  ∀ service link extra quoted, (checkRequest c.now userId c.request).Yields D (service, link, extra, quoted) →
    c.request.key c.now userId service.id link extra quoted.quote.couponCode = k

end Tap

/-! ## Until the lock, and from the lock on -/

section

variable {D : Db → Prop} {now : Time} {publicId : String} {userId : Int} {request : OrderRequest}
  {submission : Submission}

theorem placeOrder_opens {K : Db → M Order → Prop}
    (hplace : ∀ db user service link extra quoted, D db → db.users userId = .some user →
      (checkRequest now userId request).Yields D (service, link, extra, quoted) → 0 < quoted.quote.chargePaise →
      K db (placeUnder now publicId userId user service link extra quoted
        (request.key now userId service.id link extra quoted.quote.couponCode) submission))
    (hmissing : ∀ db, D db → K db (.throw .missingRow)) :
    (placeOrder now publicId userId request submission).opens (.user userId) D K := by
  rw [placeOrder_eq]
  refine opens_bind (checkRequest_reads now userId request) fun a hy => ?_
  obtain ⟨service, link, extra, quoted⟩ := a
  refine opens_require fun hc => ⟨rfl, fun db hdb => ?_⟩
  dsimp only
  cases hrow : db.users userId with
  | none => exact hmissing db hdb
  | some user => exact hplace db user service link extra quoted hdb hrow hy (by simpa using hc)

/-- The service a request is taken on for has a provider. -/
theorem checkRequest_provider {service : Service} {link : String} {extra : Text.Extra} {quoted : Quoted}
    (h : (checkRequest now userId request).Yields D (service, link, extra, quoted)) :
    ∃ db, D db ∧ (db.findProvider service.providerId).isSome := by
  obtain ⟨row, _, h⟩ := h.of_bind
  cases row with
  | none => cases h
  | some user =>
    obtain ⟨_, _, h⟩ := h.of_bind
    obtain ⟨_, _, h⟩ := h.of_bind
    obtain ⟨_, _, h⟩ := h.of_bind
    obtain ⟨found, _, h⟩ := h.of_bind
    generalize found.filter (·.isActive) = found at h
    cases found with
    | none => cases h
    | some service' =>
      obtain ⟨provider, hprovider, h⟩ := h.of_bind
      obtain ⟨db, hdb, rfl⟩ := hprovider.of_query
      obtain ⟨_, hactive, h⟩ := h.of_bind
      obtain ⟨_, _, h⟩ := h.of_bind
      obtain ⟨_, _, h⟩ := h.of_bind
      obtain ⟨_, _, h⟩ := h.of_bind
      cases h.of_pure
      refine ⟨db, hdb, ?_⟩
      have hany := hactive.of_require
      cases hp : db.findProvider service.providerId with
      | none => simp [hp] at hany
      | some p => rfl

end

/-! ## The first tap -/

/-- The provider is asked for the order. -/
def Ext.Creates (publicId : String) (x : Ext) : Prop :=
  ∃ providerServiceId link quantity accepted, x = .createOrder publicId providerServiceId link quantity accepted

section

variable {strict : Prop} {base db : Db} {sent : List Ext} {o : Order} {s : Session} {now : Time}
  {publicId link id : String} {userId : Int} {user : User} {service : Service} {extra : Text.Extra} {quoted : Quoted}
  {k : Key} {submission : Submission}

theorem wp_settleTaken {loaded : Option Coupon} (h : Working strict base sent o .held s) (hc : 0 < o.chargePaise) :
    (settleSubmission now o loaded (.ok id)).wp (fun o' s' => o'.publicId = o.publicId ∧ o'.status = .processing ∧
      o'.providerOrderId = .some id ∧ Working strict base sent o' (.captured 0 false) s')
      (InternalErrors strict sent) s := by
  simp only [settleSubmission, wp_bind]
  refine wp_setOrder h (fun _ => ⟨rfl, rfl, rfl, rfl⟩) fun s₁ h₁ => ?_
  refine wp_captureCharge h₁ hc fun s₂ h₂ => ?_
  exact wp_recordEvent h₂.working fun s₃ h₃ => ⟨rfl, rfl, rfl, h₃.working⟩

/-- A new order that the provider takes on. -/
structure FirstPlaced (db : Db) (k : Key) (o : Order) (sent : List Ext) (db' : Db) : Prop where
  asked : ∃ x, sent = [x] ∧ x.Creates o.publicId
  status : o.status = .processing
  fits : o.Fits (.captured 0 false)
  placed : ∃ o₀, db.Fresh o₀ ∧ o₀.publicId = o.publicId ∧ o₀.idempotencyKey = k ∧
    AtOrder False (db.placed o₀) o (.captured 0 false) db'
  house : db.SameHouse db'

theorem wp_placeNew_taken (hb : OrderBooks False .none db) (hu : db.users userId = .some user)
    (hc : 0 < quoted.quote.chargePaise) (hprovider : (db.findProvider service.providerId).isSome)
    (hanswer : submission.answer = .ok id) :
    (placeNew now publicId userId user service link extra quoted k submission).wp
      (fun o s => s.Will fun s' => FirstPlaced db k o s.sent s'.db) (fun e s => e.userFacing = true → s.sent = [])
      { db := db } := by
  let o₀ := newOrder now publicId userId service link extra quoted.quote k
  have hroutine : (placeNew now publicId userId user service link extra quoted k submission).Writes Stmt.Routine :=
    placeNew_writes .routine (.insertRecord _)
  have hbooking : (bookOrder now o₀ quoted).Writes Stmt.Routine := bookOrder_writes .routine (.insertRecord _)
  have hhouse (w : Stmt) (hw : Stmt.Routine w) : w.Keeps db.SameHouse := hw.keeps db
  have hstart : Txn.Session.Kept db.SameHouse Stmt.Routine ({ db := db } : Session) := ⟨.refl db, by simp⟩
  -- what the call does, and that it keeps the catalog
  have hdone : (placeNew now publicId userId user service link extra quoted k submission).wp
      (fun o s => (∃ x, s.sent = [x] ∧ x.Creates o.publicId) ∧ o.publicId = publicId ∧ o.status = .processing ∧
        o.providerOrderId = .some id ∧ db.Fresh o₀ ∧ Working False (db.placed o₀) s.sent o (.captured 0 false) s)
      (fun e s => e.userFacing = true → s.sent = []) { db := db } := by
    simp only [placeNew, wp_bind, wp_require, decide_eq_true_eq]
    split
    case isFalse => exact fun _ => trivial
    next hav =>
    have hbook : (bookOrder now o₀ quoted).wp (fun o s => db.Fresh o₀ ∧ o.publicId = o₀.publicId ∧
        o.chargePaise = o₀.chargePaise ∧ Working False (db.placed o₀) [] o .held s) (InternalErrors False [])
        { db := db } :=
      wp_bookOrder hb hu hc hav rfl fun o s hfresh hp hch _ hw => ⟨hfresh, hp, hch, hw⟩
    refine wp_mono (wp_and hbook (hbooking.wp hhouse hstart)) (fun o s h => ?_)
      fun e s h hfacing => absurd hfacing (by simp [h.1.1.1])
    obtain ⟨⟨hfresh, hp, hch, hw⟩, hkept⟩ := h
    have hsame : s.db.findProvider service.providerId = db.findProvider service.providerId := by
      rw [Db.findProvider, hkept.db.catalog, Db.findProvider]
    obtain ⟨provider, hprovider⟩ := Option.isSome_iff_exists.mp hprovider
    simp only [submitOrder, wp_bind, wp_query, hsame, hprovider, wp_call, hanswer]
    have hcharge : 0 < o.chargePaise := hch ▸ hc
    refine wp_mono (wp_settleTaken (hw.called _) hcharge) (fun o' s' h' => ?_)
      fun e s' h' hfacing => absurd hfacing (by simp [h'.1.1])
    obtain ⟨hp', hst, hid, hw'⟩ := h'
    refine ⟨⟨_, hw'.sent, ?_⟩, hp'.trans hp, hst, hid, hfresh, ?_⟩
    · exact ⟨_, _, _, _, by rw [hp']⟩
    · rw [hw'.sent]; exact hw'
  refine wp_mono (wp_and hdone (hroutine.wp hhouse hstart)) (fun o s h db' hf => ?_) fun e s h => h.1
  obtain ⟨⟨hasked, hp, hst, hid, hfresh, hw⟩, hkept⟩ := h
  refine ⟨hasked, hst, ⟨by rw [hst]; decide, by rw [hid]; rfl⟩, ⟨o₀, hfresh, hp.symm, rfl, hw.will db' hf⟩, ?_⟩
  exact hkept.will hhouse hf

end

/-! ## The order of the taps -/

/-- One order under the key, placed, answered for and paid once: `db₀` are
the tables before it, `said` is all the calls have said. -/
structure OneOrder (db₀ : Db) (k : Key) (o : Order) (db : Db) (said : List Said) : Prop where
  created : db.orders = db₀.orders ++ [o]
  key : o.idempotencyKey = k
  status : o.status = .processing
  asked : ∃ x, x.Creates o.publicId ∧ said.filterMap Sum.getLeft? = [x]
  answered : ∀ o', .inr o' ∈ said → o' = o
  reserved : ∃ e, e.orderRef = .some o.publicId ∧ ofType .reserve db.ledger = ofType .reserve db₀.ledger ++ [e]
  captured : ∃ e, e.orderRef = .some o.publicId ∧ ofType .capture db.ledger = ofType .capture db₀.ledger ++ [e]

/-- Between two taps: nothing has happened yet, or the order is there. -/
inductive Tapped (db₀ : Db) (k : Key) : Db → List Said → Prop
  | untouched : Tapped db₀ k db₀ []
  | placed {o db said} : OneOrder db₀ k o db said → Tapped db₀ k db said

structure BetweenTaps (db₀ : Db) (k : Key) (db : Db) (said : List Said) : Prop where
  books : OrderBooks False .none db
  keys : OrderKeys db
  catalog : db.catalog = db₀.catalog
  tapped : Tapped db₀ k db said

section

variable {db₀ db db' : Db} {k : Key} {o : Order} {sent : List Ext}

/-- The entries of one kind that are about the order: the ones it was written. -/
theorem AtOrder.ofType_written {strict : Prop} {f : Funds} {t : EntryType} (h : AtOrder strict db o f db')
    (ht : t ≠ .credit) (hnone : db.entriesFor o.publicId = []) :
    ofType t db'.ledger = ofType t db.ledger ++ ofType t (db'.entriesFor o.publicId) := by
  obtain ⟨es, hes, hall⟩ := h.written
  have hnew : db'.entriesFor o.publicId = es.filter (·.orderRef == .some o.publicId) := by
    simp only [Db.entriesFor] at hnone ⊢
    rw [hes, List.filter_append, hnone, List.nil_append]
  rw [hnew, hes]
  simp only [ofType, List.filter_append, List.filter_filter]
  refine congrArg _ (List.filter_congr fun e he => ?_)
  rcases hall e he with href | hcredit
  · simp [href]
  · simp [hcredit, Ne.symm ht]

/-- An entry of an order's kind is about the order. -/
theorem orderRef_of_singleton {t : EntryType} {e : LedgerEntry} {p : String}
    (h : ofType t (db.entriesFor p) = [e]) : e.orderRef = .some p := by
  have he : e ∈ ofType t (db.entriesFor p) := by rw [h]; exact List.mem_singleton_self e
  simp only [ofType, Db.entriesFor, List.mem_filter, beq_iff_eq] at he
  exact he.1.2

/-- The rows of the other orders have not changed. -/
theorem AtOrder.orders_placed {strict : Prop} {f : Funds} {o₀ : Order} (h : AtOrder strict (db.placed o₀) o f db')
    (hfresh : db.Fresh o₀) (hp : o₀.publicId = o.publicId) : db'.orders = db.orders ++ [o] := by
  obtain ⟨g, hg, hl⟩ := h.since.orders
  have hrow (o' : Order) (ho' : o' ∈ (db.placed o₀).orders) : g o' ∈ db'.orders := hg ▸ List.mem_map_of_mem ho'
  have hsame : ∀ o' ∈ db.orders, g o' = o' := by
    intro o' ho'
    have ho'' : o' ∈ (db.placed o₀).orders := List.mem_append_left _ ho'
    have hne : o'.publicId ≠ o.publicId := hp ▸ (hfresh o' ho').1
    exact List.inj_on_of_nodup_map h.books.ids (hrow o' ho'') (h.others o' ho'' hne) (hl o' ho'').publicId
  have hlast : g o₀ = o := by
    have ho₀ : o₀ ∈ (db.placed o₀).orders := List.mem_append_right _ (List.mem_singleton_self o₀)
    exact List.inj_on_of_nodup_map h.books.ids (hrow o₀ ho₀) h.mem ((hl o₀ ho₀).publicId.trans hp)
  have hmap : db.orders.map g = db.orders := (List.map_congr_left hsame).trans (List.map_id' _)
  rw [hg, Db.placed, List.map_append, hmap, List.map_cons, List.map_nil, hlast]

/-- After the first tap the order is there. -/
theorem FirstPlaced.between (h : FirstPlaced db k o sent db') (hb : OrderBooks False .none db) (hk : OrderKeys db)
    (hkey : k.orderRef = .none) (hplain : ∀ k' t, k ≠ .retry k' t) (hnone : ∀ o ∈ db.orders, o.idempotencyKey ≠ k) :
    BetweenTaps db k db' (sent.map .inl ++ [.inr o]) := by
  obtain ⟨o₀, hfresh, hp, hkey₀, hat⟩ := h.placed
  have horders := hat.orders_placed hfresh hp
  have hkeys : OrderKeys (db.placed o₀) := hk.placed hkey hfresh (by rw [hkey₀]; exact .first hnone) hplain
  have hentries : (db.placed o₀).entriesFor o.publicId = [] := by
    simp only [Db.entriesFor, List.filter_eq_nil_iff, beq_iff_eq]
    intro e he href
    obtain ⟨o', ho', hp', _⟩ := hb.known e he _ href
    exact (hfresh o' ho').1 (hp'.trans hp.symm)
  obtain ⟨⟨ec, hcapture, _⟩, _⟩ := hat.trace.tells (Int.le_of_lt hat.charge_pos)
  have hreserves := hat.trace.reserves
  rw [if_neg fun hf => by cases hf] at hreserves
  obtain ⟨er, hreserve⟩ := hreserves
  obtain ⟨x, rfl, hx⟩ := h.asked
  refine ⟨hat.close h.fits, hkeys.since hat.since, h.house.catalog, .placed ⟨horders, ?_, h.status, ⟨x, hx, rfl⟩, ?_, ?_, ?_⟩⟩
  · obtain ⟨o₁, ho₁, hl⟩ := hat.since.origin hat.mem
    rcases List.mem_append.mp ho₁ with ho₁ | ho₁
    · exact absurd (hl.publicId.symm.trans hp.symm) (hfresh o₁ ho₁).1
    · rw [hl.idempotencyKey, List.mem_singleton.mp ho₁, hkey₀]
  · intro o' ho'
    simpa using ho'
  · exact ⟨er, orderRef_of_singleton hreserve, hreserve ▸ hat.ofType_written (by decide) hentries⟩
  · exact ⟨ec, orderRef_of_singleton hcapture, hcapture ▸ hat.ofType_written (by decide) hentries⟩

theorem OneOrder.replayed {said : List Said} (h : OneOrder db₀ k o db said) : OneOrder db₀ k o db (said ++ [.inr o]) := by
  obtain ⟨x, hx, hasked⟩ := h.asked
  refine { h with asked := ⟨x, hx, by simp [hasked]⟩, answered := fun o' ho' => ?_ }
  rcases List.mem_append.mp ho' with ho' | ho'
  · exact h.answered o' ho'
  · exact Sum.inr.inj (List.mem_singleton.mp ho')

end

/-! ## Every interleaving -/

section

variable {db₀ db : Db} {u : Int} {k : Key} {c : Tap}

/-- From the lock on, a tap places the order or finds it. -/
theorem Tap.serves {service : Service} {link id : String} {extra : Text.Extra} {quoted : Quoted} {user : User}
    (hasks : c.request.Asks u k) (hnone : ∀ o ∈ db₀.orders, o.idempotencyKey ≠ k)
    (hanswer : c.submission.answer = .ok id) (hu : db.users u = .some user) (hc : 0 < quoted.quote.chargePaise)
    (hprovider : (db.findProvider service.providerId).isSome) :
    Serves Err.userFacing True (BetweenTaps db₀ k) db
      (placeUnder c.now c.publicId u user service link extra quoted k c.submission).reported := by
  refine serves_reported fun said h => ?_
  obtain ⟨hb, hk, hcatalog, htapped⟩ := h
  have hkey := hasks.orderRef
  simp only [placeUnder, wp_bind]
  cases htapped with
  | untouched =>
    refine hk.wp_loadIdempotentOrder hb.ids hkey (fun _ => ?_) fun o ho hko => absurd hko (hnone o ho)
    refine wp_mono (wp_placeNew_taken hb hu hc hprovider hanswer) (fun o s hplaced db' hf => ?_) fun e s hsent _ he => ?_
    · exact (hplaced db' hf).between hb hk hkey (OrderRequest.key_ne_retry hasks) hnone
    · rw [hsent he]
      exact ⟨hb, hk, hcatalog, .untouched⟩
  | @placed o _ _ hone =>
    have ho : o ∈ db.orders := hone.created ▸ List.mem_append_right _ (List.mem_singleton_self o)
    refine hk.wp_loadIdempotentOrder hb.ids hkey (fun hfree => absurd hone.key (hfree o ho)) fun o' ho' hko' => ?_
    obtain rfl : o' = o := List.inj_on_of_nodup_map hk.once ho' ho (hko'.trans hone.key.symm)
    have hold : (Option.some o').filter (·.replayable) = .some o' := by simp [Order.replayable, hone.status]
    simp only [hold]
    intro db' hf
    cases hf
    have hsaid : said ++ [] ++ [.inr o'] = said ++ [Sum.inr o'] := by rw [List.append_nil]
    exact ⟨hb, hk, hcatalog, .placed (hsaid ▸ hone.replayed)⟩

theorem Tap.opens_between {id : String} (hnone : ∀ o ∈ db₀.orders, o.idempotencyKey ≠ k)
    (hresolves : c.Resolves (fun db => db.catalog = db₀.catalog) u k) (hanswer : c.submission.answer = .ok id) :
    (c.code u).opens (.user u) (fun db => True ∧ ∃ said, BetweenTaps db₀ k db said)
      (Serves Err.userFacing True (BetweenTaps db₀ k)) := by
  have hcatalog (db : Db) (h : True ∧ ∃ said, BetweenTaps db₀ k db said) : db.catalog = db₀.catalog :=
    h.2.elim fun _ hbetween => hbetween.catalog
  refine opens_reported (placeOrder_opens (fun db user service link extra quoted hdb hu hy hc => ?_) fun db hdb => ?_)
  · have hkey := hresolves service link extra quoted (hy.mono hcatalog)
    obtain ⟨db', hdb', hprovider⟩ := checkRequest_provider hy
    rw [hkey]
    refine Tap.serves ⟨_, _, _, _, _, hkey.symm⟩ hnone hanswer hu hc ?_
    rwa [Db.findProvider, hcatalog db hdb, ← hcatalog db' hdb', ← Db.findProvider]
  · exact serves_reported fun said _ _ he => absurd he (by decide)

/-- Whatever the calls ask for: the books stay sound. -/
theorem Tap.opens_books : (c.code u).opens (.user u)
    (fun db => True ∧ ∃ _ : List Said, OrderBooks False .none db ∧ OrderKeys db)
    (Serves Err.userFacing False fun db _ => OrderBooks False .none db ∧ OrderKeys db) := by
  refine opens_reported (placeOrder_opens (fun db user service link extra quoted _ hu _ hc => ?_) fun db _ => ?_)
  · refine serves_reported fun said ⟨hb, hk⟩ => ?_
    have hasks : c.request.Asks u (c.request.key c.now u service.id link extra quoted.quote.couponCode) :=
      ⟨_, _, _, _, _, rfl⟩
    refine wp_mono (wp_placeUnder hb hk hu hc hasks) (fun o s hplaced db' hf => ?_) fun e s _ hfalse => hfalse.elim
    have hends : Ends False db (.place c.now c.publicId u c.request c.submission) s := hplaced.ends hb
    obtain ⟨hb', heffect⟩ := hends db' hf
    exact ⟨hb', heffect.keys hk⟩
  · exact serves_reported fun said _ hfalse => hfalse.elim

end

/-- **Double taps are safe.** However the calls of one user that resolve to
one key overlap, when none is taken back and the provider takes every order
on: once all have ended and one has returned an order, there is one order
under the key, the provider was asked once, its charge was held once and
captured once, and every call that returned an order returned this one. And
whatever calls of the user overlap, the reserve never exceeds the balance. -/
theorem double_tap_safe {ι : Type} [DecidableEq ι] {db₀ db : Db} {u : Int} (h₀ : Opening db₀)
    (h : OrderRun (fun _ _ => True) db₀ db) :
    (∀ (k : Key) (s : Txn.Sys ι Tap Db Row Err Said), (∀ o ∈ db.orders, o.idempotencyKey ≠ k) →
      Run (Tap.code u)
        (fun c => c.Resolves (fun db' => db'.catalog = db.catalog) u k ∧ ∃ id, c.submission.answer = .ok id)
        Err.userFacing True { db := db } s →
      (∀ i, s.threads i = none) → (∃ o, .inr o ∈ s.sent) → ∃ o, OneOrder db k o s.db s.sent) ∧
    ∀ s : Txn.Sys ι Tap Db Row Err Said, Run (Tap.code u) (fun _ => True) Err.userFacing False { db := db } s →
      ∀ user, s.db.users u = .some user → user.cachedReservedPaise ≤ user.cachedBalancePaise := by
  obtain ⟨hb, hk⟩ : OrderBooks False .none db ∧ OrderKeys db := h.sound h₀ fun hf => hf.elim
  refine ⟨fun k s hnone hrun hidle hsome => ?_, fun s hrun user hu => ?_⟩
  · have hstart : BetweenTaps db k db [] := ⟨hb, hk, rfl, .untouched⟩
    obtain ⟨holder, hturn⟩ := hrun.turn rfl rfl hstart (fun _ _ => trivial)
      (fun c hc => hc.2.elim fun id hid => Tap.opens_between hnone hc.1 hid) fun hcalm => absurd trivial hcalm
    have hfree : holder = none := by
      cases holder with
      | none => rfl
      | some i =>
        obtain ⟨_, t, ht, _⟩ := hturn.held i rfl
        rw [hidle i] at ht
        cases ht
    have hbetween := hturn.free hfree
    obtain ⟨o, ho⟩ := hsome
    generalize s.db = db', s.sent = said at hbetween ho
    cases hbetween.tapped with
    | untouched => cases ho
    | placed hone => exact ⟨_, hone⟩
  · have hturn : ∃ holder, Txn.Sys.Turn Err.userFacing False (.user u) (fun _ => True)
        (fun db _ => OrderBooks False .none db ∧ OrderKeys db) holder s :=
      hrun.turn rfl rfl ⟨hb, hk⟩ (fun _ _ => trivial) (fun c _ => Tap.opens_books) fun _ _ _ _ hI => hI
    obtain ⟨_, hturn⟩ := hturn
    obtain ⟨_, hb', _⟩ := hturn.before
    exact (hb'.covered u user hu).2

/-! ## Two taps in a shop -/

/-- A client's key is the one the order is looked up under. -/
theorem Tap.resolves_client {D : Db → Prop} {u : Int} {k : String} {c : Tap} (hkey : c.request.idempotencyKey = .some k)
    (hne : k ≠ "") : c.Resolves D u (.orderKey u (Text.clip 128 k)) := by
  intro service link extra quoted _
  have hfilter : c.request.idempotencyKey.filter (· ≠ "") = .some k := by
    rw [hkey, Option.filter_some, if_pos (by simpa using hne)]
  simp only [OrderRequest.key, hfilter]

def tap (publicId id : String) : Tap := ⟨0, publicId, likesFor "a", .taken id⟩

/-- Both started, then one step of each in turn. -/
def tapping : List (Txn.Act Bool Tap) :=
  .start false (tap "A" "1") :: .start true (tap "B" "2") ::
    (List.replicate 80 [Txn.Act.step true, Txn.Act.step false]).flatten

def twoTaps : Txn.Sys Bool Tap Db Row Err Said :=
  Txn.Sys.calmly (Tap.code 7) Err.userFacing { db := shop } tapping

theorem mem_tapping {i : Bool} {c : Tap} (h : .start i c ∈ tapping) : ∃ publicId id, c = tap publicId id := by
  simp only [tapping, List.mem_cons, Txn.Act.start.injEq, List.mem_flatten, List.mem_replicate] at h
  rcases h with ⟨_, rfl⟩ | ⟨_, rfl⟩ | ⟨_, ⟨_, rfl⟩, h⟩
  · exact ⟨_, _, rfl⟩
  · exact ⟨_, _, rfl⟩
  · simp at h

theorem twoTaps_ended : (∀ i, twoTaps.threads i = none) ∧ (twoTaps.sent.filterMap Sum.getRight?).length = 2 := by
  have hended : (twoTaps.threads false).isNone ∧ (twoTaps.threads true).isNone ∧
      (twoTaps.sent.filterMap Sum.getRight?).length = 2 := by decide +kernel
  refine ⟨fun i => ?_, hended.2.2⟩
  cases i with
  | false => exact Option.isNone_iff_eq_none.mp hended.1
  | true => exact Option.isNone_iff_eq_none.mp hended.2.1

/-- Both calls return, and what they return is one order. -/
theorem double_tap_safe_of_two_taps :
    (twoTaps.sent.filterMap Sum.getRight?).length = 2 ∧
      (∃ o, OneOrder shop (.orderKey 7 "a") o twoTaps.db twoTaps.sent) ∧
      ∀ user, twoTaps.db.users 7 = .some user → user.cachedReservedPaise ≤ user.cachedBalancePaise := by
  obtain ⟨hidle, hreturned⟩ := twoTaps_ended
  have hsafe := @double_tap_safe Bool _ _ _ 7 shop_opening .start
  refine ⟨hreturned, hsafe.1 _ twoTaps (by simp [shop]) (Txn.Sys.calmly_run .refl fun i c hc => ?_) hidle ?_,
    hsafe.2 twoTaps (Txn.Sys.calmly_run .refl fun _ _ _ => trivial)⟩
  · obtain ⟨publicId, id, rfl⟩ := mem_tapping hc
    have hkey : (tap publicId id).request.idempotencyKey = .some "a" := rfl
    have hclip : Text.clip 128 "a" = "a" := by decide +kernel
    exact ⟨hclip ▸ Tap.resolves_client hkey (by decide), id, rfl⟩
  · obtain ⟨o, ho⟩ := List.exists_mem_of_length_pos (Nat.lt_of_lt_of_eq Nat.two_pos hreturned.symm)
    obtain ⟨x, hx, hright⟩ := List.mem_filterMap.mp ho
    exact ⟨o, Sum.getRight?_eq_some_iff.mp hright ▸ hx⟩

end Falaron
