/-
What a stream of Stripe events does to the payments and the ledger.

An event that is captured credits the payment it refers to once the amounts
are within a cent of each other, whatever the two currencies are; and a
canceled event looks for a payment whose reference is empty, of any gateway
and verified or not, and never for the one it is about. Where no event of a
stream does either, each touches the payment it matches and no other
(`stripe_run_lawful`).
-/
import Falaron.Deposits

namespace Falaron.Core

open Py (Decimal Json)

/-! ## What an event may touch -/

section

variable (repr : Json → String) (payload : Json) (p : Payment)

/-- The event is about a captured payment: this one, with its amount and its currency. -/
def Captures : Prop :=
  ∃ info received currency, stripeInfo repr payload = .ok (some info) ∧ info.status = .captured ∧
    p.provider = "stripe" ∧ info.reference = .str p.providerRef ∧
    info.amount = some received ∧ withinCent received p = true ∧
    info.currency = .str currency ∧ Text.upper currency = Text.upper p.currency

def IsCanceled : Prop := ∃ type, jsonGet payload "type" (.str "") = .ok type ∧ isText type "payment_intent.canceled" = true

/-- The reference an event has in its object, read as for the events that are captured. -/
def ownReference : Option String :=
  match eventObject payload >>= smmRef with
  | .ok (.str r) => some r
  | _ => none

def Unverified : Prop := p.webhookVerified = false ∧ p.status ≠ .verified

/-- The event cancels this payment, which is not verified. -/
def Cancels : Prop :=
  IsCanceled payload ∧ p.provider = "stripe" ∧ ownReference payload = some p.providerRef ∧ Unverified p

/-- What an event may do: a payment it captures is verified and credited with its
own amount, one it cancels fails, and everything else stays as it is. -/
structure Lawful (db db' : Db) : Prop where
  payments : List.Forall₂ (fun p q => q = p ∨ (Captures repr payload p ∧ ∃ txnId, q = p.markVerified (some txnId)) ∨
    Cancels payload p ∧ q = p.markFailed) db.payments db'.payments
  ledger : (db'.wallets = db.wallets ∧ db'.transactions = db.transactions) ∨
    ∃ p ∈ db.payments, Captures repr payload p ∧ ∃ reason t, Posts db (depositArgs p reason) true t ∧
      db'.wallets = (db.posted t).wallets ∧ db'.transactions = (db.posted t).transactions

/-- The events that do not reach what is missing in the code: one whose payment is as yet
unverified and has its amount has its currency too; and where a canceled one finds a payment
under the empty reference, it is about that payment, which is unverified, or has failed already. -/
structure HarmlessEvent (db : Db) : Prop where
  captured : ∀ info r p received, stripeInfo repr payload = .ok (some info) → info.status = .captured →
    info.reference = .str r → db.paymentsBy (some "stripe") r = [p] → p.webhookVerified = false →
    info.amount = some received → withinCent received p = true →
    ∃ currency, info.currency = .str currency ∧ Text.upper currency = Text.upper p.currency
  canceled : IsCanceled payload → ∀ p, db.paymentsBy none "" = [p] → p.status = .failed ∨
    p.provider = "stripe" ∧ ownReference payload = some "" ∧ Unverified p

end

/-- The event a delivery carries, if its signature is good and its body is JSON. -/
def Delivery.event (g : GatewayEnv) (d : Delivery) : Option Json :=
  match stripeSigned g d with
  | .ok true => (Py.loadsBytes g.limit d.body).toOption
  | _ => none

/-- The route commits after a result, and rolls back after an error. -/
def stripeStep (g : GatewayEnv) (db : Db) (d : Delivery) : Db :=
  (processStripeWebhook g d).commit (fun _ => false) db

def stripeRun (g : GatewayEnv) (db : Db) (ds : List Delivery) : Db := ds.foldl (stripeStep g) db

/-! ## Payments by reference -/

section

variable {db : Db} {provider : Option String} {r : String} {p q : Payment}

theorem mem_paymentsBy : p ∈ db.paymentsBy provider r ↔
    p ∈ db.payments ∧ p.providerRef = r ∧ ∀ x ∈ provider, p.provider = x := by
  cases provider with
  | none => simp [Db.paymentsBy]
  | some x =>
    simp only [Db.paymentsBy, List.mem_filter, Option.all_some, Bool.and_eq_true, decide_eq_true_eq, Option.mem_def,
      Option.some.injEq, forall_eq']
    exact and_congr_right fun _ => and_congr_right fun _ => eq_comm

/-- With distinct ids an update changes the payment it names, and no other. -/
theorem updatePayment_forall₂ {f : Payment → Payment} {R : Payment → Payment → Prop}
    (hids : (db.payments.map (·.id)).Nodup) (hp : p ∈ db.payments) (hR : R p (f p)) (hsame : ∀ q, R q q) :
    List.Forall₂ R db.payments (db.updatePayment p.id f).payments := by
  rw [Db.updatePayment, List.forall₂_map_right_iff, List.forall₂_same]
  intro q hq
  by_cases hid : q.id = p.id
  · obtain rfl : q = p := List.inj_on_of_nodup_map hids hq hp hid
    rw [if_pos rfl]
    exact hR
  · rw [if_neg hid]
    exact hsame q

theorem updatePayment_ids {id : Int} {f : Payment → Payment} (hf : ∀ p, (f p).id = p.id) :
    (db.updatePayment id f).payments.map (·.id) = db.payments.map (·.id) := by
  simp only [Db.updatePayment, List.map_map]
  refine List.map_congr_left fun q _ => ?_
  simp only [Function.comp]
  split
  · exact hf q
  · rfl

end

/-! ## What a delivery commits -/

open Txn.Prog (wp wp_bind wp_query wp_require wp_write wp_flushed)

section

variable {s : Session} {repr : Json → String} {info : PaymentInfo} {k : WebhookKind}
  {E : Err → Session → Prop} {Q : Unit → Session → Prop}

theorem wp_findPayment {provider : Option String} {reference : Json} {Q : Option Payment → Session → Prop}
    (hE : ∀ e, E e s) (hnone : Q none s)
    (hsome : ∀ r p, reference = .str r → s.db.paymentsBy provider r = [p] → Q (some p) s) :
    (findPayment provider reference).wp Q E s := by
  unfold findPayment
  split
  · next r =>
    rw [wp_bind, wp_query]
    match hl : s.db.paymentsBy provider r with
    | [] => exact hnone
    | [p] => exact hsome r p rfl hl
    | _ :: _ :: _ => exact hE _
  · exact hnone
  · exact hE _

/-- The payment a captured event passes the checks of. -/
structure Passes (k : WebhookKind) (info : PaymentInfo) (db : Db) (p : Payment) : Prop where
  found : ∃ r, info.reference = .str r ∧ db.paymentsBy (some k.provider) r = [p]
  fresh : p.webhookVerified = false
  amount : ∃ received, info.amount = some received ∧ withinCent received p = true

/-- A captured event raises, changes nothing, or credits the payment it passes the
checks of, unless that has been credited before, and marks it verified. -/
theorem wp_processCaptured (hst : s.staged = []) (hE : ∀ e s', E e s') (hsame : Q () s)
    (hQ : ∀ p db₁ reason txnId, Passes k info s.db p →
      db₁ = s.db ∨ (∃ t, Posts s.db (depositArgs p reason) true t ∧ db₁ = s.db.posted t) →
      Q () { s with db := db₁.updatePayment p.id (.markVerified (some txnId)) }) :
    (processCaptured repr k info).wp Q E s := by
  rw [processCaptured, wp_bind]
  refine wp_findPayment (hE · s) hsame fun r p hr hp => ?_
  simp only [wp_bind, wp_require]
  split
  case isFalse => exact hE _ _
  next hfresh =>
  cases hamount : info.amount with
  | none => exact hE _ _
  | some received =>
    simp only [orRaise, Txn.Prog.wp_pure']
    split
    case isFalse => exact hE _ _
    next hcent =>
    have hpass : Passes k info s.db p := ⟨⟨r, hr, hp⟩, by simpa using hfresh, received, hamount, hcent⟩
    -- what is left once the currency is checked, or is not
    have hrest : wp Q E (do
        let _ ← credit (depositArgs p (k.deposit ++ info.providerTxnId.text repr))
        let txnId ← lift (columnText info.providerTxnId)
        .write (Stmt.verifyPayment p.id (some txnId))
        flush) s := by
      rw [wp_bind]
      have hmark : ∀ db₁, (db₁ = s.db ∨ ∃ t, Posts s.db (depositArgs p (k.deposit ++ info.providerTxnId.text repr))
          true t ∧ db₁ = s.db.posted t) → wp Q E (do
            let txnId ← lift (columnText info.providerTxnId)
            .write (Stmt.verifyPayment p.id (some txnId))
            flush) { s with db := db₁ } := by
        intro db₁ hdb
        rw [wp_bind]
        refine wp_lift (fun e => hE e _) fun txnId _ => ?_
        simp only [wp_bind, wp_write, hst, List.nil_append, flush, wp_flushed, Txn.flushAll]
        split
        · next db₂ hf =>
          split at hf
          · cases hf
            have hq := hQ p db₁ _ txnId hpass hdb
            rw [← hst]
            exact hq
          · cases hf
        · exact hE _ _
      refine wp_executeTransaction hst (fun e ws => hE e _) (fun t _ => hmark s.db (.inl rfl)) fun t ht => ?_
      exact hmark _ (.inr ⟨t, ht, rfl⟩)
    split
    · rw [wp_bind, checkCurrency, wp_bind]
      refine wp_lift (hE · s) fun currency _ => ?_
      rw [wp_require]
      split
      · exact hrest
      · exact hE _ _
    · exact hrest

theorem wp_processStripe_failed (hst : s.staged = []) (hE : ∀ e s', E e s') (hinfo : info.status = .failed)
    (hsame : Q () s)
    (hQ : ∀ r p, info.reference = .str r → s.db.paymentsBy none r = [p] →
      Q () { s with db := s.db.updatePayment p.id .markFailed }) :
    (processStripe repr info).wp Q E s := by
  simp only [processStripe, hinfo, wp_bind]
  refine wp_findPayment (hE · s) hsame fun r p hr hp => ?_
  simp only [wp_bind, wp_write, hst, List.nil_append, flush, wp_flushed, Txn.flushAll, Stmt.failPayment, if_true]
  have hq := hQ r p hr hp
  rw [← hst]
  exact hq

end

/-! ## One delivery -/

/-- The columns an event never touches: a payment is the row its id names. -/
def Keyed (db : Db) : Prop := (db.payments.map (·.id)).Nodup

section

variable {repr : Json → String} {payload : Json} {info : PaymentInfo} {db db' : Db} {p : Payment} {r : String}

theorem Lawful.refl (repr : Json → String) (payload : Json) (db : Db) : Lawful repr payload db db :=
  ⟨List.forall₂_same.mpr fun _ _ => .inl rfl, .inl ⟨rfl, rfl⟩⟩

theorem extractFromPaymentIntent_status {pi : Json} {status : InfoStatus}
    (h : extractFromPaymentIntent repr pi status = .ok info) : info.status = status := by
  unfold extractFromPaymentIntent at h
  obtain ⟨_, -, h⟩ := ok_of_bind h
  obtain ⟨_, -, h⟩ := ok_of_bind h
  obtain ⟨_, -, h⟩ := ok_of_bind h
  obtain ⟨_, -, h⟩ := ok_of_bind h
  obtain ⟨_, -, h⟩ := ok_of_bind h
  obtain ⟨_, -, h⟩ := ok_of_bind h
  obtain ⟨_, -, h⟩ := ok_of_bind h
  cases h
  rfl

theorem extractFromSession_status {session : Json} (h : extractFromSession repr session = .ok (some info)) :
    info.status = .captured := by
  unfold extractFromSession at h
  obtain ⟨_, -, h⟩ := ok_of_bind h
  split at h
  · cases h
  obtain ⟨_, -, h⟩ := ok_of_bind h
  obtain ⟨_, -, h⟩ := ok_of_bind h
  obtain ⟨_, -, h⟩ := ok_of_bind h
  obtain ⟨_, -, h⟩ := ok_of_bind h
  obtain ⟨_, -, h⟩ := ok_of_bind h
  obtain ⟨_, -, h⟩ := ok_of_bind h
  cases h
  rfl

/-- The events read as failed are the canceled ones, and their reference is read as empty. -/
theorem stripeInfo_cases (h : stripeInfo repr payload = .ok (some info)) :
    info.status = .captured ∨ info.status = .failed ∧ IsCanceled payload ∧ info.reference = .str "" := by
  unfold stripeInfo at h
  obtain ⟨type, htype, h⟩ := ok_of_bind h
  split at h
  · obtain ⟨_, -, h⟩ := ok_of_bind h
    obtain ⟨_, hpi, h⟩ := ok_of_bind h
    cases h
    exact .inl (extractFromPaymentIntent_status hpi)
  split at h
  · obtain ⟨_, -, h⟩ := ok_of_bind h
    exact .inl (extractFromSession_status h)
  split at h
  · next hcanceled =>
    obtain ⟨_, -, h⟩ := ok_of_bind h
    obtain ⟨_, -, h⟩ := ok_of_bind h
    cases h
    exact .inr ⟨rfl, ⟨type, htype, hcanceled⟩, rfl⟩
  · cases h

/-- The payment an event passes the checks of is the one it captures. -/
theorem Passes.captures (hp : Passes .stripe info db p) (hi : stripeInfo repr payload = .ok (some info))
    (hc : info.status = .captured) (hh : HarmlessEvent repr payload db) : Captures repr payload p ∧ p ∈ db.payments := by
  obtain ⟨r, hr, hfound⟩ := hp.found
  obtain ⟨received, hrec, hcent⟩ := hp.amount
  obtain ⟨currency, hcur, heq⟩ := hh.captured info r p received hi hc hr hfound hp.fresh hrec hcent
  have hby : p ∈ db.paymentsBy (some "stripe") r := hfound ▸ List.mem_singleton_self p
  obtain ⟨hmem, rfl, hprov⟩ := mem_paymentsBy.mp hby
  exact ⟨⟨info, received, currency, hi, hc, hprov _ rfl, hr, hrec, hcent, hcur, heq⟩, hmem⟩

theorem lawful_captured (hk : Keyed db) (hcap : Captures repr payload p) (hmem : p ∈ db.payments) {db₁ : Db}
    {reason : String} {txnId : Option String}
    (hdb : db₁ = db ∨ ∃ t, Posts db (depositArgs p reason) true t ∧ db₁ = db.posted t) :
    Lawful repr payload db (db₁.updatePayment p.id (.markVerified (some txnId))) := by
  have hpay : db₁.payments = db.payments := by
    rcases hdb with rfl | ⟨t, -, rfl⟩
    · rfl
    · rfl
  refine ⟨?_, ?_⟩
  · simp only [Db.updatePayment, hpay]
    exact updatePayment_forall₂ hk hmem (.inr (.inl ⟨hcap, txnId, rfl⟩)) fun q => .inl rfl
  · rcases hdb with rfl | ⟨t, ht, rfl⟩
    · exact .inl ⟨rfl, rfl⟩
    · exact .inr ⟨p, hmem, hcap, reason, t, ht, rfl, rfl⟩

theorem lawful_canceled (hk : Keyed db) (hcan : IsCanceled payload) (hh : HarmlessEvent repr payload db)
    (hp : db.paymentsBy none "" = [p]) : Lawful repr payload db (db.updatePayment p.id .markFailed) := by
  have hby : p ∈ db.paymentsBy none "" := hp ▸ List.mem_singleton_self p
  obtain ⟨hmem, href, -⟩ := mem_paymentsBy.mp hby
  refine ⟨updatePayment_forall₂ hk hmem ?_ fun q => .inl rfl, .inl ⟨rfl, rfl⟩⟩
  rcases hh.canceled hcan p hp with hfailed | ⟨hprov, hown, hun⟩
  · exact .inl (by rw [Payment.markFailed, ← hfailed])
  · exact .inr (.inr ⟨⟨hcan, hprov, by rw [hown, href], hun⟩, rfl⟩)

theorem keyed_update {f : Payment → Payment} {id : Int} (hk : Keyed db) (hf : ∀ p, (f p).id = p.id) :
    Keyed (db.updatePayment id f) := by
  rw [Keyed, updatePayment_ids hf]
  exact hk

end

section

variable {g : GatewayEnv} {d : Delivery} {db : Db}

/-- What a delivery may leave: what its event may do, and nothing new where it carries none. -/
structure Delivery.Lawful (g : GatewayEnv) (d : Delivery) (db db' : Db) : Prop where
  event : ∀ payload ∈ d.event g, Core.Lawful g.repr payload db db'
  silent : d.event g = none → db' = db

theorem Delivery.lawful_refl : d.Lawful g db db := ⟨fun _ _ => Core.Lawful.refl _ _ db, fun _ => rfl⟩

/-- What a signed event says is processed. -/
theorem processStripeWebhook_of_event {payload : Json} {info : PaymentInfo} (he : d.event g = some payload)
    (hi : stripeInfo g.repr payload = .ok (some info)) : processStripeWebhook g d = processStripe g.repr info := by
  unfold Delivery.event at he
  split at he
  next hsigned =>
    cases hl : Py.loadsBytes g.limit d.body with
    | error e =>
      rw [hl] at he
      cases he
    | ok v =>
      rw [hl] at he
      obtain rfl : v = payload := Option.some.inj he
      unfold processStripeWebhook readDelivery
      simp only [hsigned, hl, hi]
      rfl
  · cases he

/-- A delivery whose event is harmless touches what it matches. -/
theorem stripeStep_lawful (hk : Keyed db) (hh : ∀ payload ∈ d.event g, HarmlessEvent g.repr payload db) :
    d.Lawful g db (stripeStep g db d) ∧ Keyed (stripeStep g db d) := by
  have hstay : d.Lawful g db db ∧ Keyed db := ⟨Delivery.lawful_refl, hk⟩
  have hprog : (processStripeWebhook g d).wp (fun _ s => s.staged = [] ∧ d.Lawful g db s.db ∧ Keyed s.db)
      (fun _ _ => True) { db := db } := by
    rw [processStripeWebhook, wp_bind]
    unfold readDelivery
    split
    · trivial
    · trivial
    next hsigned =>
    split
    · exact ⟨rfl, hstay⟩
    next payload hload =>
    have hevent : d.event g = some payload := by
      rw [Delivery.event, hsigned, hload]
      rfl
    have hharm := hh payload hevent
    have hlawful : ∀ db', Core.Lawful g.repr payload db db' → d.Lawful g db db' := by
      intro db' h
      refine ⟨fun payload' hp => ?_, fun hnone => absurd (hevent.symm.trans hnone) (by simp)⟩
      obtain rfl : payload = payload' := Option.some.inj (hevent.symm.trans hp)
      exact h
    refine wp_lift (fun _ => trivial) fun info hinfo => ?_
    cases info with
    | none => exact ⟨rfl, hstay⟩
    | some info =>
      rcases stripeInfo_cases hinfo with hcap | ⟨hfail, hcan, href⟩
      · simp only [processStripe, hcap]
        refine wp_processCaptured rfl (fun _ _ => trivial) ⟨rfl, hstay⟩ fun p db₁ reason txnId hpass hdb => ?_
        obtain ⟨hcaptures, hmem⟩ := hpass.captures hinfo hcap hharm
        refine ⟨rfl, hlawful _ (lawful_captured hk hcaptures hmem hdb), keyed_update ?_ fun _ => rfl⟩
        rcases hdb with rfl | ⟨t, -, rfl⟩
        · exact hk
        · exact hk
      · refine wp_processStripe_failed rfl (fun _ _ => trivial) hfail ⟨rfl, hstay⟩ fun r p hr hp => ?_
        obtain rfl : r = "" := Json.str.inj (hr.symm.trans href)
        exact ⟨rfl, hlawful _ (lawful_canceled hk hcan hharm hp), keyed_update hk fun _ => rfl⟩
  refine Txn.Prog.commit_of_wp (P := fun db' => d.Lawful g db db' ∧ Keyed db') hstay (Txn.Prog.wp_mono hprog (fun _ s hs => ?_) fun _ _ _ hc => by cases hc)
  rw [hs.1]
  exact hs.2

/-! ## Every stream -/

/-- **Stripe events touch what they match.** In any stream of deliveries, from
any payments, whose events are harmless where they arrive, each credits, and
verifies, only the payment it refers to, with that payment's amount and
currency, and fails only the unverified payment it cancels. -/
theorem stripe_run_lawful {start : Db} {ds : List Delivery} (hk : Keyed start)
    (hh : ∀ done d rest, ds = done ++ d :: rest →
      ∀ payload ∈ d.event g, HarmlessEvent g.repr payload (stripeRun g start done)) :
    ∀ done d rest, ds = done ++ d :: rest →
      d.Lawful g (stripeRun g start done) (stripeRun g start (done ++ [d])) := by
  have hrun : ∀ done d, stripeRun g start (done ++ [d]) = stripeStep g (stripeRun g start done) d := fun done d => by
    simp [stripeRun]
  have hkeyed : ∀ done rest, ds = done ++ rest → Keyed (stripeRun g start done) := by
    intro done
    induction done using List.reverseRecOn with
    | nil => exact fun _ _ => hk
    | append_singleton done d ih =>
      intro rest h
      have h' : ds = done ++ d :: rest := by simp [h]
      rw [hrun]
      exact (stripeStep_lawful (ih _ h') (hh done d rest h')).2
  intro done d rest h
  rw [hrun]
  exact (stripeStep_lawful (hkeyed done _ h) (hh done d rest h)).1

end

/-! ## Yen for rupees, and a payment canceled by another's event -/

/-- HMAC-SHA256 of the three payloads below, which differ in length. -/
def eventHmac (_ message : List UInt8) : List UInt8 :=
  if message.length = 139 then InitData.fromHex ["cc31f5e21e3f64eb", "5c247825ee64f85c", "6b2ea5145870b2c7", "12b0f18f6d6f32e9"]
  else if message.length = 141 then InitData.fromHex ["33bf57858db13424", "87c7ef2a774e3b75", "a2f0ed5181c6a2ca", "22ef8dea7e50d920"]
  else InitData.fromHex ["d15cd57fe1aa0f86", "13fab453e3fee09d", "3edd5d79a87c58b8", "315478fe0b73bc65"]

def testGateway : GatewayEnv := ⟨eventHmac, Stripe.testSecret, Stripe.testSecret, 900, fun _ => ""⟩

def deliver (body : List UInt8) (digest : String) : Delivery :=
  ⟨1767225600, body, [("stripe-signature", "t=1767225600,v1=" ++ digest)]⟩

/-- 500 yen paid for the reference. -/
def yenPaid : Delivery := deliver
  (InitData.bytes ("\x7b\"type\":\"payment_intent.succeeded\"," ++
    "\"data\":\x7b\"object\":\x7b\"id\":\"pi_1\",\"amount\":500,\"currency\":\"jpy\",\"metadata\":\x7b\"smm_ref\":\"SMM-1\"\x7d\x7d\x7d\x7d"))
  "cc31f5e21e3f64eb5c247825ee64f85c6b2ea5145870b2c712b0f18f6d6f32e9"

/-- 500 rupees paid for the reference. -/
def rupeesPaid : Delivery := deliver
  (InitData.bytes ("\x7b\"type\":\"payment_intent.succeeded\"," ++
    "\"data\":\x7b\"object\":\x7b\"id\":\"pi_1\",\"amount\":50000,\"currency\":\"inr\",\"metadata\":\x7b\"smm_ref\":\"SMM-1\"\x7d\x7d\x7d\x7d"))
  "33bf57858db1342487c7ef2a774e3b75a2f0ed5181c6a2ca22ef8dea7e50d920"

/-- The payment with the reference is canceled. -/
def canceled : Delivery := deliver
  (InitData.bytes ("\x7b\"type\":\"payment_intent.canceled\"," ++
    "\"data\":\x7b\"object\":\x7b\"id\":\"pi_2\",\"metadata\":\x7b\"smm_ref\":\"SMM-1\"\x7d\x7d\x7d\x7d"))
  "d15cd57fe1aa0f8613fab453e3fee09d3edd5d79a87c58b8315478fe0b73bc65"

/-- The user 7 means to pay 500 rupees through Stripe. -/
def rupeePayment : Payment := ⟨1, 7, 5000000, "INR", "stripe", "SMM-1", none, .pending, false, 0⟩

/-- A verified payment of the other gateway, without a reference. -/
def otherPayment : Payment := ⟨2, 8, 1000000, "INR", "razorpay", "", some "pay_9", .verified, true, 0⟩

def twoPayments : Db where
  wallets u := if u = 7 then some ⟨0⟩ else if u = 8 then some ⟨1000000⟩ else none
  payments := [rupeePayment, otherPayment]

/-- What the tests below read of a delivery's event: its currency is the one, and it cancels nothing. -/
def saysCurrency (currency : String) (payload : Json) : Bool :=
  (stripeInfo testGateway.repr payload).toOption.join.any (fun info => isText info.currency currency) &&
    !(jsonGet payload "type" (.str "")).toOption.any (isText · "payment_intent.canceled")

theorem eq_of_isText {v : Json} {s : String} (h : isText v s = true) : v = .str s := by
  cases v with
  | str t => rw [of_decide_eq_true h]
  | _ => cases h

theorem saysCurrency_info {currency : String} {payload : Json} {info : PaymentInfo}
    (h : saysCurrency currency payload = true) (hi : stripeInfo testGateway.repr payload = .ok (some info)) :
    info.currency = .str currency := by
  simp only [saysCurrency, hi, Bool.and_eq_true] at h
  exact eq_of_isText h.1

theorem saysCurrency_canceled {currency : String} {payload : Json} (h : saysCurrency currency payload = true) :
    ¬ IsCanceled payload := by
  rintro ⟨type, htype, hcan⟩
  simp only [saysCurrency, htype, Bool.and_eq_true] at h
  simp [Except.toOption, hcan] at h

/-- A text is signed with the digest of it at the time of the deliveries. -/
theorem deliver_signed {text digest : String} {bytes : List UInt8} (hdigest : digest = (InitData.hexdigest bytes).text)
    (hhmac : eventHmac [] (InitData.bytes ("1767225600" ++ "." ++ text)) = bytes) :
    stripeSigned testGateway (deliver (InitData.bytes text) digest) = .ok true := by
  have hheader : "t=1767225600,v1=" ++ digest = Stripe.headerAt "1767225600" bytes := by
    rw [hdigest]
    rfl
  rw [stripeSigned, deliver, hheader]
  refine Stripe.accepted_headerAt bytes Stripe.year_read.1 Stripe.year_read.2 (by simp [Stripe.signatureToleranceS]) ?_
  rw [Stripe.expectedSignature, Stripe.signedPayload, Stripe.decodeReplace_bytes]
  exact congrArg InitData.hexdigest hhmac.symm

theorem event_of_read {text digest : String} {bytes : List UInt8} {p : Json → Bool}
    (hdigest : digest = (InitData.hexdigest bytes).text)
    (hhmac : eventHmac [] (InitData.bytes ("1767225600" ++ "." ++ text)) = bytes)
    (hread : (Py.loadsBytes 900 (InitData.bytes text)).toOption.any p = true) :
    ∃ payload, (deliver (InitData.bytes text) digest).event testGateway = some payload ∧ p payload = true := by
  rw [Delivery.event, deliver_signed hdigest hhmac]
  exact (Option.any_eq_true _ _).mp hread

/-- The event says this, its texts as texts. -/
def tells (status : InfoStatus) (txnId : String) (amount : Decimal) (currency reference : String) (payload : Json) : Bool :=
  (stripeInfo testGateway.repr payload).toOption.join.any fun info => info.status = status &&
    isText info.providerTxnId txnId && info.amount = some amount && isText info.currency currency &&
    isText info.reference reference

theorem tells_info {status : InfoStatus} {txnId currency reference : String} {amount : Decimal} {payload : Json}
    (h : tells status txnId amount currency reference payload = true) :
    stripeInfo testGateway.repr payload = .ok (some ⟨status, .str txnId, some amount, .str currency, .str reference⟩) := by
  unfold tells at h
  match hi : stripeInfo testGateway.repr payload with
  | .error e => simp [hi, Except.toOption] at h
  | .ok none => simp [hi, Except.toOption] at h
  | .ok (some info) =>
    simp only [hi, Except.toOption, Option.join_some, Option.any_some, Bool.and_eq_true, decide_eq_true_eq] at h
    obtain ⟨⟨⟨⟨hstatus, htxn⟩, hamount⟩, hcurrency⟩, hreference⟩ := h
    rw [← hstatus, ← eq_of_isText htxn, ← hamount, ← eq_of_isText hcurrency, ← eq_of_isText hreference]

/-- What an event says is what its delivery commits. -/
theorem stripeRun_of_tells {d : Delivery} {payload : Json} {status : InfoStatus} {txnId currency reference : String}
    {amount : Decimal} (he : d.event testGateway = some payload)
    (h : tells status txnId amount currency reference payload = true) :
    stripeRun testGateway twoPayments [d] = (processStripe testGateway.repr
      ⟨status, .str txnId, some amount, .str currency, .str reference⟩).commit (fun _ => false) twoPayments := by
  rw [stripeRun, List.foldl_cons, List.foldl_nil, stripeStep, processStripeWebhook_of_event he (tells_info h)]

theorem rupees_event : ∃ payload, rupeesPaid.event testGateway = some payload ∧ saysCurrency "INR" payload = true ∧
    tells .captured "pi_1" ⟨50000, -2⟩ "INR" "SMM-1" payload = true := by
  simp only [← Bool.and_eq_true]
  refine event_of_read (by decide +kernel) rfl ?_
  simp only [Py.loadsBytes_eq]
  decide +kernel

/-- What the event of the rupees says. -/
def rupeesInfo : PaymentInfo := ⟨.captured, .str "pi_1", some ⟨50000, -2⟩, .str "INR", .str "SMM-1"⟩

theorem rupees_processed : processStripeWebhook testGateway rupeesPaid = processStripe testGateway.repr rupeesInfo := by
  obtain ⟨payload, he, -, htells⟩ := rupees_event
  exact processStripeWebhook_of_event he (tells_info htells)

theorem yen_event : ∃ payload, yenPaid.event testGateway = some payload ∧ saysCurrency "JPY" payload = true ∧
    tells .captured "pi_1" ⟨500, 0⟩ "JPY" "SMM-1" payload = true := by
  simp only [← Bool.and_eq_true]
  refine event_of_read (by decide +kernel) rfl ?_
  simp only [Py.loadsBytes_eq]
  decide +kernel

theorem canceled_event : ∃ payload, canceled.event testGateway = some payload ∧
    decide (ownReference payload = some "SMM-1") = true ∧ tells .failed "pi_2" ⟨0, 0⟩ "INR" "" payload = true := by
  simp only [← Bool.and_eq_true]
  refine event_of_read (by decide +kernel) rfl ?_
  simp only [Py.loadsBytes_eq]
  decide +kernel

/-- The rupees are credited lawfully. -/
theorem rupees_lawful :
    rupeesPaid.Lawful testGateway twoPayments (stripeRun testGateway twoPayments [rupeesPaid]) ∧
      ((stripeRun testGateway twoPayments [rupeesPaid]).wallets 7).map (·.balance) = some 5000000 := by
  obtain ⟨payload, he, hinr, htells⟩ := rupees_event
  have hbalance : ((stripeRun testGateway twoPayments [rupeesPaid]).wallets 7).map (·.balance) = some 5000000 := by
    rw [stripeRun_of_tells he htells]
    decide +kernel
  have hkeyed : Keyed twoPayments := by
    unfold Keyed
    decide
  have hharmless : ∀ done d rest, [rupeesPaid] = done ++ d :: rest →
      ∀ payload ∈ d.event testGateway, HarmlessEvent testGateway.repr payload (stripeRun testGateway twoPayments done) := by
    intro done d rest h payload' hp
    obtain rfl : done = [] := by
      cases done with
      | nil => rfl
      | cons e done => simp at h
    obtain rfl : rupeesPaid = d := (List.cons.inj h).1
    obtain rfl : payload = payload' := Option.some.inj (he.symm.trans hp)
    refine ⟨fun info r p received hi hc hr hby hfresh ha hcent => ⟨"INR", saysCurrency_info hinr hi, ?_⟩,
      fun hcan => absurd hcan (saysCurrency_canceled hinr)⟩
    have hmem : p ∈ twoPayments.paymentsBy (some "stripe") r := hby ▸ List.mem_singleton_self p
    obtain ⟨hmem, -, -⟩ := mem_paymentsBy.mp hmem
    have hall : ∀ q ∈ twoPayments.payments, Text.upper "INR" = Text.upper q.currency := by decide
    exact hall p hmem
  have hnil : stripeRun testGateway twoPayments [] = twoPayments := rfl
  have hlawful := stripe_run_lawful hkeyed hharmless [] rupeesPaid [] rfl
  rw [hnil, List.nil_append] at hlawful
  exact ⟨hlawful, hbalance⟩

/-- 500 yen are credited as 500 rupees, and a canceled event fails a verified payment of the other gateway. -/
theorem stripe_events_touch_others :
    (¬ yenPaid.Lawful testGateway twoPayments (stripeRun testGateway twoPayments [yenPaid]) ∧
      (yenPaid.event testGateway).any (saysCurrency "JPY") = true ∧
      ((stripeRun testGateway twoPayments [yenPaid]).wallets 7).map (·.balance) = some 5000000) ∧
    ¬ canceled.Lawful testGateway twoPayments (stripeRun testGateway twoPayments [canceled]) ∧
      (canceled.event testGateway).bind ownReference = some "SMM-1" ∧
      (stripeRun testGateway twoPayments [canceled]).payments.map (·.status) = [.pending, .failed] := by
  obtain ⟨payload, he, hyen, htells⟩ := yen_event
  have hbalance : ((stripeRun testGateway twoPayments [yenPaid]).wallets 7).map (·.balance) = some 5000000 := by
    rw [stripeRun_of_tells he htells]
    decide +kernel
  obtain ⟨canceling, hce, hown, hctells⟩ := canceled_event
  have hpayments : (stripeRun testGateway twoPayments [canceled]).payments = [rupeePayment, otherPayment.markFailed] := by
    rw [stripeRun_of_tells hce hctells]
    decide +kernel
  refine ⟨⟨fun h => ?_, by rw [he]; exact hyen, hbalance⟩, fun h => ?_, by rw [hce]; exact of_decide_eq_true hown,
    by rw [hpayments]; rfl⟩
  · rcases (h.event payload he).ledger with ⟨hwallets, -⟩ | ⟨p, hmem, hcap, -⟩
    · rw [hwallets] at hbalance
      exact absurd hbalance (by decide)
    · obtain ⟨info, received, currency, hi, -, -, -, -, -, hcur, heq⟩ := hcap
      obtain rfl : "JPY" = currency := Json.str.inj ((saysCurrency_info hyen hi).symm.trans hcur)
      have hall : ∀ q ∈ twoPayments.payments, Text.upper "JPY" ≠ Text.upper q.currency := by decide
      exact hall p hmem heq
  · have hrows := (h.event canceling hce).payments
    rw [hpayments] at hrows
    rcases hrows with _ | ⟨-, hrows⟩
    rcases hrows with _ | ⟨hother, -⟩
    rcases hother with hsame | ⟨-, txnId, hverified⟩ | ⟨⟨-, hprov, -⟩, -⟩
    · exact absurd hsame (by decide)
    · cases congrArg Payment.status hverified
    · exact absurd hprov (by decide)

end Falaron.Core
