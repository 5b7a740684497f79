/-
What each call of the order engine does to the books.

One specification per function of the engine, in the order the functions call
each other. Where a function works on an order, it says where it takes the
order's money from and to; what it needs of the order is that its status and
provider id fit where the money is.
-/
import Falaron.OrderSteps

namespace Falaron

open Txn.Prog
open Text (clip)

section

variable {strict : Prop} {base : Db} {sent : List Ext} {o : Order} {f f' : Funds} {s : Session}

/-! ## The order's postings -/

theorem Key.orElse_of_orderRef {key d : Key} {p : String} (h : key.orderRef = .some p) :
    Key.orElse (.some key) d = key := by
  cases key <;> first | rfl | cases h

theorem reserveDraft_eq {n : Int} {user : User} (h : n ≤ user.availablePaise) : reserveDraft n user =
    .ok ⟨0, user.cachedBalancePaise, user.cachedReservedPaise + n⟩ := if_neg (by omega)

theorem releaseDraft_eq (n : Int) (user : User) : releaseDraft n user = .ok ⟨0, user.cachedBalancePaise,
    if user.cachedReservedPaise < n then 0 else user.cachedReservedPaise - n⟩ := by
  simp only [releaseDraft]
  split
  · split
    · rfl
    · simp only [Int.sub_self]
  · rfl

theorem captureDraft_over {n : Int} {user : User} (h : user.cachedReservedPaise < n) :
    captureDraft n user = .error overCapture := if_pos h

theorem captureDraft_eq {n : Int} {user : User} (h : ¬ user.cachedReservedPaise < n) : captureDraft n user =
    .ok ⟨-n, user.cachedBalancePaise - n, user.cachedReservedPaise - n⟩ := if_neg h

/-- The charge is held. -/
theorem wp_reserve {user : User} {reason : String} {Q : LedgerEntry → Session → Prop}
    (h : Working strict base sent o .unheld s) (hc : 0 < o.chargePaise)
    (hu : s.Will fun s' => s'.db.users o.userId = .some user) (hav : o.chargePaise ≤ user.availablePaise)
    (hQ : ∀ e s', Settled strict base sent o .held s' → Q e s') :
    (reserve (orderPosting o o.chargePaise reason) (.reserve o.publicId)).wp Q (InternalErrors strict sent) s := by
  refine wp_orderPosting .held h hc rfl rfl (fun _ => trivial) (fun db user' hf _ hu' _ => ?_)
    (fun e s' he h' => ?_) hQ
  · obtain rfl : user = user' := Option.some.inj ((hu db hf).symm.trans hu')
    have hd := reserveDraft_eq hav
    simp only [User.availablePaise] at hav
    simp only [orderPosting, hd, Funds.hold]
    exact ⟨by omega, .reserve, fun _ => by omega⟩
  · have htells : s'.db.entriesFor o.publicId = [] := h'.here.trace.tells (Int.le_of_lt hc)
    simp [htells] at he

/-- A held charge is released: nothing is clamped as long as the reserves are exact. -/
theorem wp_release {reason tag : String} {Q : LedgerEntry → Session → Prop}
    (h : Working strict base sent o .held s) (hc : 0 < o.chargePaise)
    (hQ : ∀ e s', Settled strict base sent o .released s' → Q e s') :
    (release (orderPosting o o.chargePaise reason) (.release o.publicId tag)).wp Q (InternalErrors strict sent) s := by
  refine wp_orderPosting .released h hc rfl rfl (fun _ => trivial) (fun db user _ hat hu hcov => ?_)
    (fun e s' he h' => ?_) hQ
  · have hle (hs : strict) := hat.books.charge_le_reserved hs hat.mem hat.trace hu
    simp only [orderPosting, releaseDraft_eq, Funds.hold]
    refine ⟨by omega, .release, fun hs => ?_⟩
    have := hle hs
    omega
  · have htells := h'.here.trace.tells (Int.le_of_lt hc)
    rw [htells.2.2.1] at he
    cases he

/-- A charge that was captured is released all the same: that takes from other orders' holds. -/
theorem wp_release_captured {r : Int} {b : Bool} {reason tag : String} {Q : LedgerEntry → Session → Prop}
    (hns : ¬ strict) (h : Working strict base sent o (.captured r b) s) (hc : 0 < o.chargePaise)
    (hQ : ∀ e b' s', Settled strict base sent o (.captured r b') s' → Q e s') :
    (release (orderPosting o o.chargePaise reason) (.release o.publicId tag)).wp Q (InternalErrors strict sent) s := by
  refine wp_orderPosting (.captured r true) h hc rfl rfl (fun hs => absurd hs hns)
    (fun db user _ hat hu hcov => ?_) (fun e s' _ h' => hQ e b s' h') fun e s' h' => hQ e true s' h'
  simp only [orderPosting, releaseDraft_eq]
  exact ⟨by omega, .overrun, fun hs => absurd hs hns⟩

/-- A held charge is captured: the reserve is enough as long as the reserves are exact. -/
theorem wp_captureCharge {Q : Unit → Session → Prop}
    (h : Working strict base sent o .held s) (hc : 0 < o.chargePaise)
    (hQ : ∀ s', Settled strict base sent o (.captured 0 false) s' → Q () s') :
    (captureCharge o).wp Q (InternalErrors strict sent) s := by
  simp only [captureCharge, wp_bind]
  refine wp_orderPosting (.captured 0 false) h hc rfl rfl (fun _ => rfl)
    (fun db user _ hat hu hcov => ?_) (fun e s' he h' => ?_) fun _ s' h' => hQ s' h'
  · have hle (hs : strict) := hat.books.charge_le_reserved hs hat.mem hat.trace hu
    by_cases hlt : user.cachedReservedPaise < o.chargePaise
    · simp only [orderPosting, captureDraft_over hlt]
      refine ⟨rfl, fun hs => ?_⟩
      have := hle hs
      omega
    · simp only [orderPosting, captureDraft_eq hlt, Funds.hold]
      exact ⟨by omega, .capture rfl, fun _ => by omega⟩
  · have htells := h'.here.trace.tells (Int.le_of_lt hc)
    rw [htells.2.1] at he
    cases he

/-- Part of what was captured is credited back. -/
theorem wp_credit {r amount : Int} {b : Bool} {reason : String} {key : Key} {Q : LedgerEntry → Session → Prop}
    (h : Working strict base sent o (.captured r b) s) (hpos : 0 < amount) (hle : r + amount ≤ o.chargePaise)
    (hclean : strict → b = false) (hkey : key.orderRef = .some o.publicId) (htype : key.entryType = .credit)
    (hQ : ∀ e r' s', Settled strict base sent o (.captured r' b) s' → Q e s') :
    (credit (orderPosting o amount reason) (.some key)).wp Q (InternalErrors strict sent) s := by
  simp only [credit, Key.orElse_of_orderRef hkey]
  refine wp_orderPosting (.captured (r + amount) b) h hpos hkey htype hclean
    (fun db user _ hat hu hcov => ?_) (fun e s' _ h' => hQ e r s' h') fun e s' h' => hQ e _ s' h'
  simp only [orderPosting, creditDraft, Funds.hold]
  exact ⟨by omega, .credit hpos hle, fun _ => by omega⟩

/-! ## Giving up on an order -/

theorem quiet_setUsedCount (code : String) (n : Int) : Quiet (Stmt.setUsedCount code n) :=
  ⟨fun _ => rfl, fun _ => rfl, fun _ => rfl, fun _ _ _ => rfl⟩

theorem wp_uncountUse {code : String} {coupon : Option Coupon} {Q : Unit → Session → Prop}
    (h : Working strict base sent o f s) (hQ : ∀ s', Working strict base sent o f s' → Q () s') :
    (uncountUse code coupon).wp Q (InternalErrors strict sent) s := by
  cases coupon with
  | none => exact hQ _ h
  | some coupon =>
    simp only [uncountUse]
    split
    · exact wp_quiet h (quiet_setUsedCount _ _) hQ
    · exact hQ _ h

theorem wp_releaseCouponUse {order : Order} {loaded : Option Coupon} {Q : Unit → Session → Prop}
    (h : Working strict base sent o f s) (hQ : ∀ s', Working strict base sent o f s' → Q () s') :
    (releaseCouponUse order loaded).wp Q (InternalErrors strict sent) s := by
  unfold releaseCouponUse
  split
  · exact hQ _ h
  · simp only [wp_bind, wp_query]
    split
    · exact hQ _ h
    · simp only [wp_bind]
      refine wp_quiet h ⟨fun _ => rfl, fun _ => rfl, fun _ => rfl, fun _ _ _ => rfl⟩ fun s₁ h₁ => ?_
      cases loaded with
      | none => exact wp_uncountUse h₁ hQ
      | some coupon => exact wp_uncountUse h₁ hQ

theorem wp_failAndRelease {now : Time} {reason tag : String} {loaded : Option Coupon}
    {Q : Order → Session → Prop} (h : Working strict base sent o .held s) (hc : 0 < o.chargePaise)
    (hQ : ∀ o' s', o'.publicId = o.publicId → o'.status = .failed → o'.providerOrderId = o.providerOrderId →
      Settled strict base sent o' .released s' → Q o' s') :
    (failAndRelease now o reason tag loaded).wp Q (InternalErrors strict sent) s := by
  simp only [failAndRelease, wp_bind]
  refine wp_release h hc fun _ s₁ h₁ => ?_
  refine wp_setOrder h₁.working (fun _ => ⟨rfl, rfl, rfl, rfl⟩) fun s₂ h₂ => ?_
  refine wp_releaseCouponUse h₂ fun s₃ h₃ => ?_
  exact wp_recordEvent h₃ fun s₄ => hQ _ s₄ rfl rfl rfl

/-! ## Placing an order -/

end

/-- The tables with a new order and the record of its key. -/
def Db.placed (db : Db) (o : Order) : Db :=
  { db with
    orders := db.orders ++ [o]
    records := fun k => if k = o.idempotencyKey then .some (.order o.publicId) else db.records k }

/-- Neither the order's id nor its key has been used. -/
def Db.Fresh (db : Db) (o : Order) : Prop :=
  ∀ o' ∈ db.orders, o'.publicId ≠ o.publicId ∧ o'.idempotencyKey ≠ o.idempotencyKey

/-- The provider's answer leaves the outcome open. -/
def SubmitError.ambiguous : SubmitError → Bool
  | .provider e => e.retryable
  | .other => false

/-- What the provider's answer makes of an order and its money. -/
def Submitted (o : Order) (f : Funds) : Except SubmitError String → Prop
  | .ok _ => f = .captured 0 false
  | .error e => if e.ambiguous then f = .held else f = .released ∧ o.status = .failed

section

variable {strict : Prop} {base : Db} {sent : List Ext} {o : Order} {f f' : Funds} {s : Session}

theorem wp_settleSubmission {now : Time} {loaded : Option Coupon} {answer : Except SubmitError String}
    {Q : Order → Session → Prop} (h : Working strict base sent o .held s) (hc : 0 < o.chargePaise)
    (hid : o.providerOrderId = .none)
    (hQ : ∀ o' f' s', o'.publicId = o.publicId → o'.Fits f' → Submitted o' f' answer →
      Working strict base sent o' f' s' → Q o' s') :
    (settleSubmission now o loaded answer).wp Q (InternalErrors strict sent) s := by
  cases answer with
  | ok externalId =>
    simp only [settleSubmission, wp_bind]
    refine wp_setOrder h (fun _ => ⟨rfl, rfl, rfl, rfl⟩) fun s₁ h₁ => ?_
    refine wp_captureCharge h₁ hc fun s₂ h₂ => ?_
    refine wp_recordEvent h₂.working fun s₃ h₃ => hQ _ (.captured 0 false) _ rfl ⟨?_, rfl⟩ rfl h₃.working
    show OrderStatus.processing ∉ [.awaitingProvider, .review]
    decide
  | error e =>
    have hfail (e : SubmitError) (he : e.ambiguous = false) (reason tag : String) :
        (failAndRelease now o reason tag loaded).wp
          (fun o' s' => ∃ f', o'.publicId = o.publicId ∧ o'.Fits f' ∧ Submitted o' f' (.error e) ∧
            Working strict base sent o' f' s')
          (InternalErrors strict sent) s := by
      refine wp_failAndRelease h hc fun o' s' hid' hst hp hs' => ⟨.released, hid', ⟨?_, ?_⟩, ?_, hs'.working⟩
      · simp [hst]
      · rw [hp, hid]
      · simp only [Submitted, he]
        exact ⟨trivial, hst⟩
    have hdone {o' s'} (h' : ∃ f', o'.publicId = o.publicId ∧ o'.Fits f' ∧ Submitted o' f' (.error e) ∧
        Working strict base sent o' f' s') : Q o' s' := by
      obtain ⟨f', h₀, h₁, h₂, h₃⟩ := h'
      exact hQ o' f' s' h₀ h₁ h₂ h₃
    cases e with
    | other => exact wp_mono (hfail .other rfl _ _) (fun _ _ => hdone) fun _ _ he => he
    | provider e =>
      simp only [settleSubmission]
      split
      · next hr =>
        simp only [wp_bind]
        refine wp_setOrder h (fun _ => ⟨rfl, rfl, rfl, rfl⟩) fun s₁ h₁ => ?_
        refine wp_recordEvent h₁ fun s₂ h₂ => ?_
        refine wp_audit h₂.working fun s₃ h₃ => hQ _ .held _ rfl ⟨?_, hid⟩ ?_ h₃.working
        · show OrderStatus.review ∈ [.pending, .awaitingProvider, .review]
          decide
        · simp [Submitted, SubmitError.ambiguous, hr]
      · next hr =>
        exact wp_mono (hfail (.provider e) (by simpa [SubmitError.ambiguous] using hr) _ _) (fun _ _ => hdone) fun _ _ he => he

/-- The provider is asked once, if its row is there. -/
theorem wp_submitOrder {now : Time} {service : Service} {loaded : Option Coupon} {submission : Submission}
    {Q : Order → Session → Prop} {E : Err → Session → Prop} (h : Working strict base sent o .held s)
    (hc : 0 < o.chargePaise) (hid : o.providerOrderId = .none)
    (hE : ∀ e sent' s', InternalErrors strict sent' e s' → E e s')
    (hQ : ∀ o' f' sent' s', o'.publicId = o.publicId → o'.Fits f' → Working strict base sent' o' f' s' →
      sent' = sent ∧ f' = .released ∧ o'.status = .failed ∨ Submitted o' f' submission.answer → Q o' s') :
    (submitOrder now o service loaded submission).wp Q E s := by
  simp only [submitOrder, wp_bind, wp_query]
  split
  · refine wp_mono ?_ (fun _ _ h' => h') fun e s' => hE e sent s'
    exact wp_settleSubmission h hc hid fun o' f' s' hp hf hsub h' =>
      hQ o' f' sent s' hp hf h' (.inl ⟨rfl, hsub⟩)
  · simp only [wp_bind, wp_call]
    let x : Ext :=
      .createOrder o.publicId service.providerServiceId o.link o.quantity submission.accepted
    refine wp_mono ?_ (fun _ _ h' => h') fun e s' => hE e (sent ++ [x]) s'
    exact wp_settleSubmission (h.called x) hc hid fun o' f' s' hp hf hsub h' =>
      hQ o' f' _ s' hp hf h' (.inr hsub)

theorem wp_redeemCoupon {order : Order} {loaded : Option Coupon} {Q : Unit → Session → Prop}
    (h : Working strict base sent o f s) (hQ : ∀ s', Working strict base sent o f s' → Q () s') :
    (redeemCoupon order loaded).wp Q (InternalErrors strict sent) s := by
  unfold redeemCoupon
  split
  · exact hQ _ h
  · next code _ =>
    have hredeemed (s') (h' : Working strict base sent o f s') :
        (write (Stmt.insertRedemption ⟨code, order.userId, order.publicId⟩) : M Unit).wp Q
          (InternalErrors strict sent) s' :=
      wp_quiet h' ⟨fun _ => rfl, fun _ => rfl, fun _ => rfl, fun _ _ _ => rfl⟩ hQ
    simp only [wp_bind]
    cases loaded with
    | none => exact hredeemed s h
    | some coupon => exact wp_quiet h (quiet_setUsedCount _ _) hredeemed

/-- A new order gets its row, the record of its key and its hold. -/
theorem wp_bookOrder {now : Time} {quoted : Quoted} {db : Db} {user : User} {Q : Order → Session → Prop}
    (hb : OrderBooks strict .none db) (hu : db.users o.userId = .some user) (hc : 0 < o.chargePaise)
    (hav : o.chargePaise ≤ user.availablePaise) (hst : o.status = .pending)
    (hQ : ∀ o' s', db.Fresh o → o'.publicId = o.publicId → o'.chargePaise = o.chargePaise →
      o'.providerOrderId = o.providerOrderId → Working strict (db.placed o) [] o' .held s' → Q o' s') :
    (bookOrder now o quoted).wp Q (InternalErrors strict []) { db := db } := by
  simp only [bookOrder, wp_bind, wp_write, flush, wp_flushed, List.nil_append, Txn.flushAll]
  by_cases ha : (Stmt.insertOrder o).admits db = true
  case neg =>
    rw [if_neg ha]
    exact ⟨.integrity, rfl⟩
  rw [if_pos ha]
  have hfresh : db.Fresh o := by
    intro o' ho'
    simpa using List.all_eq_true.mp ha o' ho'
  obtain ⟨hb₁, hnone⟩ := hb.insertOrder (fun o' ho' => (hfresh o' ho').1) (by rw [hu]; rfl) hc
  -- once its record is written too, the order is in the tables, with nothing held yet
  let Booked (s' : Session) : Prop :=
    AtOrder strict (db.placed o) o .unheld s'.db ∧ s'.db.users o.userId = .some user
  have hbooked : AtOrder strict (db.placed o) o .unheld (db.placed o) := by
    refine ⟨hb₁.quiet rfl rfl rfl, List.mem_append_right _ (by simp), ?_, .refl _, fun o' ho' hp => ?_,
      fun _ ho' _ => ho', [], by simp, by simp⟩
    · rw [show (db.placed o).entriesFor o.publicId = [] from hnone]
      exact .nil
    · rcases List.mem_append.mp ho' with ho' | ho'
      · exact absurd hp (hfresh o' ho').1
      · rw [List.mem_singleton.mp ho', hst]
        decide
  let s₁ : Session := ⟨(Stmt.insertOrder o).apply db, [Stmt.insertRecord o.idempotencyKey (.order o.publicId)], []⟩
  have hrecord : s₁.Will Booked := by
    intro db' hf
    simp only [s₁, Txn.flushAll] at hf
    split at hf <;> cases hf
    exact ⟨hbooked, hu⟩
  have hresale : (recordResale o quoted).wp (fun _ s' => s'.sent = [] ∧ s'.Will Booked)
      (InternalErrors strict []) s₁ := by
    unfold recordResale
    split
    · refine wp_write_will hrecord (fun s' hs' _ => ?_) fun s' hsent hw => ⟨hsent, hw⟩
      exact ⟨hs'.1.quiet rfl rfl rfl fun _ _ => rfl, hs'.2⟩
    · exact ⟨rfl, hrecord⟩
  refine wp_mono hresale (fun _ s₂ h₂ => ?_) fun _ _ he => he
  refine wp_reserve ⟨h₂.2.mono fun _ hs' => hs'.1, h₂.1⟩ hc (h₂.2.mono fun _ hs' => hs'.2) hav fun _ s₃ h₃ => ?_
  refine wp_recordEvent h₃.working fun s₄ h₄ => ?_
  exact wp_redeemCoupon h₄.working fun s₅ h₅ => hQ _ s₅ hfresh rfl rfl rfl h₅

end

/-! ## The request and its key -/

section

theorem validateLink_error {link : String} {e : Err} (h : validateLink link = .error e) : e.ofRequest := by
  simp only [validateLink] at h
  split at h
  · cases h; trivial
  split at h
  · cases h; trivial
  split at h
  · cases h
  split at h
  · cases h
  split at h
  · cases h; trivial
  split at h
  · cases h
  · cases h; trivial

theorem validateComments_error {extra : Text.Extra} {e : Err} (h : validateComments extra = .error e) :
    e.ofRequest := by
  simp only [validateComments] at h
  split at h <;> cases h
  trivial

theorem validateMentions_error {extra : Text.Extra} {e : Err} (h : validateMentions extra = .error e) :
    e.ofRequest := by
  simp only [validateMentions] at h
  split at h <;> split at h <;> cases h <;> trivial

theorem bind_error {α β : Type} {x : Except Err α} {g : α → Except Err β} {e : Err}
    (h : x.bind g = .error e) : x = .error e ∨ ∃ a, x = .ok a ∧ g a = .error e := by
  cases x with
  | error e' => exact .inl (by simpa [Except.bind] using h)
  | ok a => exact .inr ⟨a, rfl, h⟩

theorem validateExtra_error {service : Service} {extra : Text.Extra} {e : Err}
    (h : validateExtra service extra = .error e) : e.ofRequest := by
  simp only [validateExtra] at h
  generalize Text.lower (if service.serviceType.getD "" = "" then "default"
    else service.serviceType.getD "") = stype at h
  rcases bind_error h with h | ⟨extra', _, h⟩
  · split at h
    · exact validateComments_error h
    · cases h
  · split at h
    · exact validateMentions_error h
    · cases h

theorem ofExcept_reads {α : Type} {x : Except Err α} (h : ∀ e, x = .error e → e.ofRequest) :
    (ofExcept x).Reads Err.ofRequest := by
  cases x with
  | ok a => exact .pure a
  | error e => exact .throw (h e rfl)

theorem assertOrdersOpen_reads : assertOrdersOpen.Reads Err.ofRequest :=
  .bind killSwitches_reads fun _ => .bind (.require _ trivial) fun _ => .bind (.require _ trivial) fun _ =>
    .require _ trivial

theorem assertRefillsOpen_reads : assertRefillsOpen.Reads Err.ofRequest :=
  .bind killSwitches_reads fun _ => .require _ trivial

theorem checkRequest_reads (now : Time) (userId : Int) (request : OrderRequest) :
    (checkRequest now userId request).Reads Err.ofRequest := by
  refine .bind (.query _) fun user => ?_
  split
  · exact .throw trivial
  refine .bind (.require _ trivial) fun _ => ?_
  refine .bind (.require _ trivial) fun _ => ?_
  refine .bind assertOrdersOpen_reads fun _ => ?_
  refine .bind (.query _) fun service => ?_
  split
  · exact .throw trivial
  refine .bind (.query _) fun _ => .bind (.require _ trivial) fun _ => ?_
  refine .bind (ofExcept_reads fun _ => validateLink_error) fun link => ?_
  refine .bind (ofExcept_reads fun _ => validateExtra_error) fun extra => ?_
  exact .bind (quoteOrder_reads _ _ _ _ _) fun quoted => .pure (_, link, extra, quoted)

/-- The keys a request of the user may be looked up under: which one depends
on the time and the tables. -/
def OrderRequest.Asks (request : OrderRequest) (userId : Int) (key : Key) : Prop :=
  ∃ now serviceId link extra couponCode, key = request.key now userId serviceId link extra couponCode

theorem OrderRequest.Asks.orderRef {request : OrderRequest} {userId : Int} {key : Key}
    (h : request.Asks userId key) : key.orderRef = .none := by
  obtain ⟨_, _, _, _, _, rfl⟩ := h
  unfold OrderRequest.key
  split <;> rfl

/-- The keys of the orders: none is used twice, each is on record with its
order, and an order under a retry key follows a failed one under the key. -/
structure OrderKeys (db : Db) : Prop where
  once : (db.orders.map (·.idempotencyKey)).Nodup
  plain : ∀ o ∈ db.orders, o.idempotencyKey.orderRef = .none
  recorded : ∀ k p, k.orderRef = .none → db.records k = .some (.order p) →
    ∃ o ∈ db.orders, o.publicId = p ∧ o.idempotencyKey = k
  retried : ∀ o ∈ db.orders, ∀ k t, o.idempotencyKey = .retry k t →
    ∃ o' ∈ db.orders, o'.idempotencyKey = k ∧ o'.status = .failed

/-- The key of a new order: the one asked for, or a retry of it after a failed order. -/
inductive NewKey (db : Db) (key : Key) : Key → Prop
  | first : (∀ o ∈ db.orders, o.idempotencyKey ≠ key) → NewKey db key key
  | retry {o t} : o ∈ db.orders → o.idempotencyKey = key → o.status = .failed → NewKey db key (.retry key t)

namespace OrderKeys

variable {db db' : Db} {o : Order}

theorem since (h : OrderKeys db) (hs : db.Since db') : OrderKeys db' := by
  constructor
  case once =>
    obtain ⟨g, hg, hl⟩ := hs.orders
    rw [hg, List.map_map]
    have hkeys : db.orders.map ((·.idempotencyKey) ∘ g) = db.orders.map (·.idempotencyKey) :=
      List.map_congr_left fun o ho => (hl o ho).idempotencyKey
    exact hkeys ▸ h.once
  case plain =>
    intro o ho
    obtain ⟨o₀, ho₀, hl⟩ := hs.origin ho
    exact hl.idempotencyKey ▸ h.plain o₀ ho₀
  case recorded =>
    intro k p hk hr
    rw [hs.records k hk] at hr
    obtain ⟨o, ho, hp, hkey⟩ := h.recorded k p hk hr
    obtain ⟨o', ho', hl⟩ := hs.later ho
    exact ⟨o', ho', hl.publicId.trans hp, hl.idempotencyKey.trans hkey⟩
  case retried =>
    intro o ho k t hk
    obtain ⟨o₀, ho₀, hl₀⟩ := hs.origin ho
    obtain ⟨o₁, ho₁, hkey, hfailed⟩ := h.retried o₀ ho₀ k t (hl₀.idempotencyKey ▸ hk)
    obtain ⟨o', ho', hl⟩ := hs.later ho₁
    exact ⟨o', ho', hl.idempotencyKey.trans hkey, hl.failed hfailed⟩

theorem placed (h : OrderKeys db) {key : Key} (hkey : key.orderRef = .none) (hf : db.Fresh o)
    (hn : NewKey db key o.idempotencyKey) (hplain : ∀ k t, key ≠ .retry k t) : OrderKeys (db.placed o) := by
  have hmem {o'} (ho' : o' ∈ (db.placed o).orders) : o' ∈ db.orders ∨ o' = o := by
    simpa [Db.placed] using ho'
  constructor
  case once =>
    simp only [Db.placed, List.map_append, List.map_cons, List.map_nil]
    refine List.nodup_append.mpr ⟨h.once, by simp, ?_⟩
    intro k hk k' hk'
    obtain ⟨o', ho', rfl⟩ := List.mem_map.mp hk
    rw [List.mem_singleton.mp hk']
    exact (hf o' ho').2
  case plain =>
    intro o' ho'
    rcases hmem ho' with ho' | rfl
    · exact h.plain o' ho'
    · generalize o'.idempotencyKey = k at hn
      cases hn with
      | first => exact hkey
      | retry => rfl
  case recorded =>
    intro k p hk hr
    simp only [Db.placed] at hr
    split at hr
    · next hkk =>
      cases hr
      exact ⟨o, by simp [Db.placed], rfl, hkk.symm⟩
    · obtain ⟨o', ho', h'⟩ := h.recorded k p hk hr
      exact ⟨o', List.mem_append_left _ ho', h'⟩
  case retried =>
    intro o' ho' k t hk
    rcases hmem ho' with ho' | rfl
    · obtain ⟨o₁, ho₁, h'⟩ := h.retried o' ho' k t hk
      exact ⟨o₁, List.mem_append_left _ ho₁, h'⟩
    · rw [hk] at hn
      cases hn with
      | first => exact absurd rfl (hplain k t)
      | retry ho₁ hk₁ hf₁ => exact ⟨_, List.mem_append_left _ ho₁, hk₁, hf₁⟩

/-- What is found under a key is the order placed under it. -/
theorem wp_loadIdempotentOrder (h : OrderKeys db) (hids : (db.orders.map (·.publicId)).Nodup) {key : Key} (hkey : key.orderRef = .none)
    {Q : Option Order → Session → Prop} {E : Err → Session → Prop}
    (hnone : (∀ o ∈ db.orders, o.idempotencyKey ≠ key) → Q .none { db := db })
    (hsome : ∀ o ∈ db.orders, o.idempotencyKey = key → Q (.some o) { db := db }) :
    (loadIdempotentOrder key).wp Q E { db := db } := by
  simp only [loadIdempotentOrder, wp_bind, wp_query]
  have hfind : Q (db.orders.find? (·.idempotencyKey == key)) { db := db } := by
    cases hf : db.orders.find? (·.idempotencyKey == key) with
    | none => exact hnone (by simpa using hf)
    | some o => exact hsome o (List.mem_of_find?_eq_some hf) (by simpa using List.find?_some hf)
  split
  · next p hr =>
    obtain ⟨o, ho, rfl, hk⟩ := h.recorded key p hkey hr
    simp only [wp_query, Db.findOrder_of_mem hids ho]
    exact hsome o ho hk
  · exact hfind

end OrderKeys

/-- How a call of the engine may fail: an error the user is told of leaves
the tables alone, and a capture only fails where the reserves are off. -/
def CallErrors (strict : Prop) (db : Db) (e : Err) (s : Session) : Prop :=
  (e.userFacing = true → s.db = db ∧ s.staged = []) ∧ (strict → e ≠ overCapture)

theorem CallErrors.internal {strict : Prop} {db : Db} {sent : List Ext} {e : Err} {s : Session}
    (h : InternalErrors strict sent e s) : CallErrors strict db e s :=
  ⟨fun he => absurd he (by simp [h.1.1]), h.1.2⟩

theorem CallErrors.request {strict : Prop} {e : Err} {s : Session} (h : e.ofRequest) (hs : s.staged = []) :
    CallErrors strict s.db e s :=
  ⟨fun _ => ⟨rfl, hs⟩, fun _ he => by rw [he] at h; exact h⟩

/-- What placing an order comes to: the order an earlier call placed, or a
new one as the provider's answer leaves it. -/
inductive Placed (strict : Prop) (db : Db) (publicId : String) (userId : Int) (request : OrderRequest)
    (submission : Submission) (o : Order) (s : Session) : Prop
  | replayed : s = { db := db } → o ∈ db.orders → Placed strict db publicId userId request submission o s
  | booked {o₀ key f} : db.Fresh o₀ → o₀.publicId = publicId → request.Asks userId key →
      NewKey db key o₀.idempotencyKey → o.publicId = publicId → o.Fits f →
      Working strict (db.placed o₀) s.sent o f s →
      s.sent = [] ∧ f = .released ∧ o.status = .failed ∨ Submitted o f submission.answer →
      Placed strict db publicId userId request submission o s

/-- How placing an order may fail: the provider has only been asked if the id was free. -/
def PlaceErrors (strict : Prop) (db : Db) (publicId : String) (e : Err) (s : Session) : Prop :=
  CallErrors strict db e s ∧ (s.sent = [] ∨ ∀ o ∈ db.orders, o.publicId ≠ publicId)

theorem wp_placeNew {strict : Prop} {db : Db} {now : Time} {publicId link : String} {userId : Int}
    {user : User} {service : Service} {extra : Text.Extra} {quoted : Quoted} {k : Key} {submission : Submission}
    {Q : Order → Session → Prop} {E : Err → Session → Prop} (hb : OrderBooks strict .none db)
    (hu : db.users userId = .some user) (hc : 0 < quoted.quote.chargePaise)
    (hE : ∀ e s, PlaceErrors strict db publicId e s → E e s)
    (hQ : ∀ o₀ o f s, db.Fresh o₀ → o₀.publicId = publicId → o₀.idempotencyKey = k → o.publicId = publicId → o.Fits f →
      Working strict (db.placed o₀) s.sent o f s →
      s.sent = [] ∧ f = .released ∧ o.status = .failed ∨ Submitted o f submission.answer → Q o s) :
    (placeNew now publicId userId user service link extra quoted k submission).wp Q E { db := db } := by
  simp only [placeNew, wp_bind, wp_require, decide_eq_true_eq]
  split
  case isFalse => exact hE _ _ ⟨⟨fun _ => ⟨rfl, rfl⟩, fun _ => by simp [needFunds, overCapture]⟩, .inl rfl⟩
  next hav =>
  refine wp_mono ?_ (fun _ _ h => h) fun e s h => hE e s ⟨.internal h, .inl h.2⟩
  refine wp_bookOrder hb hu hc hav rfl fun o' s' hfresh hp hch hid hw => ?_
  have hfree : ∀ o ∈ db.orders, o.publicId ≠ publicId := fun o ho => (hfresh o ho).1
  refine wp_submitOrder hw (hch ▸ hc) hid (fun e sent' s'' he => hE e s'' ⟨.internal he, .inr hfree⟩)
    fun o'' f' sent' s'' hp' hf hw' hsub => ?_
  obtain rfl := hw'.sent
  exact hQ _ _ _ _ hfresh rfl rfl (hp'.trans hp) hf hw' hsub

/-- The part of `place_order` that works under the user's lock. -/
def placeUnder (now : Time) (publicId : String) (userId : Int) (user : User) (service : Service) (link : String)
    (extra : Text.Extra) (quoted : Quoted) (key : Key) (submission : Submission) : M Order := do
  let existing ← loadIdempotentOrder key
  match existing.filter (·.replayable) with
  | .some order => Pure.pure order
  | .none =>
    let key := if existing.isSome then .retry key now else key
    placeNew now publicId userId user service link extra quoted key submission

theorem placeOrder_eq (now : Time) (publicId : String) (userId : Int) (request : OrderRequest)
    (submission : Submission) : placeOrder now publicId userId request submission =
      (checkRequest now userId request >>= fun (service, link, extra, quoted) =>
        .require (0 < quoted.quote.chargePaise) (.order "Quoted charge is invalid") >>= fun _ =>
        lockUser userId >>= fun user => placeUnder now publicId userId user service link extra quoted
          (request.key now userId service.id link extra quoted.quote.couponCode) submission) := rfl

theorem wp_placeUnder {strict : Prop} {db : Db} {now : Time} {publicId link : String} {userId : Int} {user : User}
    {service : Service} {extra : Text.Extra} {quoted : Quoted} {key : Key} {request : OrderRequest}
    {submission : Submission} (hb : OrderBooks strict .none db) (hk : OrderKeys db) (hu : db.users userId = .some user)
    (hc : 0 < quoted.quote.chargePaise) (hasks : request.Asks userId key) :
    (placeUnder now publicId userId user service link extra quoted key submission).wp
      (Placed strict db publicId userId request submission) (PlaceErrors strict db publicId) { db := db } := by
  simp only [placeUnder, wp_bind]
  have hnew {k : Key} (hn : NewKey db key k) :
      (placeNew now publicId userId user service link extra quoted k submission).wp
        (Placed strict db publicId userId request submission) (PlaceErrors strict db publicId) { db := db } :=
    wp_placeNew hb hu hc (fun _ _ he => he) fun o₀ o f s hfresh hp₀ hk₀ hp hf hw hsub =>
      .booked hfresh hp₀ hasks (hk₀ ▸ hn) hp hf hw hsub
  refine hk.wp_loadIdempotentOrder hb.ids hasks.orderRef (fun hnone => ?_) fun o ho hko => ?_
  · exact hnew (.first hnone)
  · by_cases hf : o.status = .failed
    · have hretry : (Option.some o).filter (·.replayable) = .none := by simp [Order.replayable, hf]
      simp only [hretry]
      exact hnew (.retry ho hko hf)
    · have hold : (Option.some o).filter (·.replayable) = .some o := by simp [Order.replayable, hf]
      simp only [hold]
      exact .replayed rfl ho

theorem wp_placeOrder {strict : Prop} {db : Db} {now : Time} {publicId : String} {userId : Int}
    {request : OrderRequest} {submission : Submission} (hb : OrderBooks strict .none db) (hk : OrderKeys db) :
    (placeOrder now publicId userId request submission).wp
      (Placed strict db publicId userId request submission) (PlaceErrors strict db publicId) { db := db } := by
  simp only [placeOrder_eq, wp_bind]
  refine (checkRequest_reads now userId request).wp (fun a => ?_)
    fun e he => ⟨.request he rfl, .inl rfl⟩
  obtain ⟨service, link, extra, quoted⟩ := a
  simp only [wp_require, decide_eq_true_eq]
  split
  case isFalse => exact ⟨CallErrors.request trivial rfl, .inl rfl⟩
  next hc =>
  simp only [lockUser, wp_bind]
  refine wp_flush rfl ?_
  simp only [wp_lockRow]
  cases hu : db.users userId with
  | none => exact ⟨CallErrors.request trivial rfl, .inl rfl⟩
  | some user => exact wp_placeUnder hb hk hu hc ⟨now, _, _, _, _, rfl⟩

end

/-! ## Following the provider -/

section

variable {strict : Prop} {base : Db} {sent : List Ext} {o : Order} {f f' : Funds} {s : Session} {r : Int}
  {b : Bool}

theorem quiet_insertRecord {key : Key} {p : String} (h : key.orderRef = .some p) (res : Response) :
    Quiet (Stmt.insertRecord key res) := by
  refine ⟨fun _ => rfl, fun _ => rfl, fun _ => rfl, fun db k hk => if_neg ?_⟩
  rintro rfl
  rw [h] at hk
  cases hk

theorem wp_creditBack {amount : Int} {reason : String} {key : Key} {Q : Unit → Session → Prop}
    (h : Settled strict base sent o (.captured r b) s) (hpos : 0 < amount) (hle : r + amount ≤ o.chargePaise)
    (hkey : key.orderRef = .some o.publicId) (htype : key.entryType = .credit)
    (hQ : ∀ r' s', Working strict base sent o (.captured r' b) s' → Q () s') :
    (creditBack o amount reason key).wp Q (InternalErrors strict sent) s := by
  simp only [creditBack, wp_bind]
  refine wp_credit h.working hpos hle h.here.clean hkey htype fun _ r' s₁ h₁ => ?_
  exact wp_quiet h₁.working (quiet_insertRecord hkey _) (hQ r')

theorem wp_maybePartialRefund {remains : Int} {Q : Unit → Session → Prop}
    (h : Settled strict base sent o (.captured r b) s)
    (hQ : ∀ r' s', Working strict base sent o (.captured r' b) s' → Q () s') :
    (maybePartialRefund o remains).wp Q (InternalErrors strict sent) s := by
  unfold maybePartialRefund
  split
  · exact hQ r s h.working
  simp only [wp_bind, wp_query]
  split
  · exact hQ r s h.working
  simp only [wp_bind, refundedSoFar, wp_query, h.here.refundedSoFar]
  split
  · exact hQ r s h.working
  next hpos =>
  simp only [wp_bind, wp_query]
  split
  · exact hQ r s h.working
  · refine wp_creditBack h (by omega) ?_ rfl rfl hQ
    have hr : r = Funds.refunded (.captured r b) := rfl
    omega

theorem wp_refundIfNeeded {now : Time} {mapped : OrderStatus} {Q : Order → Session → Prop}
    (h : Settled strict base sent o (.captured r b) s) (hf : o.Fits (.captured r b))
    (hQ : ∀ o' r' s', o'.Fits (.captured r' b) → Working strict base sent o' (.captured r' b) s' → Q o' s') :
    (refundIfNeeded now o mapped).wp Q (InternalErrors strict sent) s := by
  simp only [refundIfNeeded, wp_bind, wp_query]
  split
  · exact hQ o r s hf h.working
  simp only [wp_bind, wp_query]
  split
  · exact hQ o r s hf h.working
  split
  · exact hQ o r s hf h.working
  simp only [wp_bind, refundedSoFar, wp_query, h.here.refundedSoFar]
  split
  · exact hQ o r s hf h.working
  next howed =>
  simp only [wp_bind]
  have hr : r = Funds.refunded (.captured r b) := rfl
  refine wp_creditBack h (by omega) (by omega) rfl rfl fun r' s₁ h₁ => ?_
  split
  · refine wp_recordEvent h₁ fun s₂ h₂ => hQ _ r' s₂ ⟨?_, hf.2⟩ h₂.working
    show OrderStatus.refunded ∉ [.awaitingProvider, .review]
    decide
  · exact hQ o r' s₁ hf h₁

theorem wp_applyStatus {now : Time} {mapped : OrderStatus} {remains : Option Int} {Q : Order → Session → Prop}
    (h : Working strict base sent o (.captured r b) s) (hid : o.providerOrderId.isSome)
    (hm : mapped ∉ [.awaitingProvider, .review])
    (hQ : ∀ o' r' s', o'.Fits (.captured r' b) → Working strict base sent o' (.captured r' b) s' → Q o' s') :
    (applyStatus now o mapped remains).wp Q (InternalErrors strict sent) s := by
  simp only [applyStatus, wp_bind]
  refine wp_recordEvent h fun s₁ h₁ => ?_
  have hf (r : Int) : Order.Fits { o with status := mapped, updatedAt := now } (.captured r b) := ⟨hm, hid⟩
  split
  · simp only [wp_bind]
    cases remains with
    | none => exact hQ _ r s₁ (hf r) h₁.working
    | some n => exact wp_maybePartialRefund h₁ fun r' s₂ h₂ => hQ _ r' s₂ (hf r') h₂
  split
  · exact wp_refundIfNeeded h₁ (hf r) hQ
  split
  · simp only [wp_bind]
    refine wp_creditOrderCommission (hQ _ r s₁ (hf r) h₁.working) fun p hpos href => ?_
    exact wp_otherCredit h₁.working hpos (by simp [href]) rfl fun _ s₂ h₂ => hQ _ r s₂ (hf r) h₂.working
  · exact hQ _ r s₁ (hf r) h₁.working

theorem wp_applyReport {now : Time} {status : ProviderStatus} {Q : Order → Session → Prop}
    (h : Working strict base sent o (.captured r b) s) (hf : o.Fits (.captured r b))
    (hQ : ∀ o' r' s', o'.Fits (.captured r' b) → Working strict base sent o' (.captured r' b) s' → Q o' s') :
    (applyReport now o status).wp Q (InternalErrors strict sent) s := by
  simp only [applyReport, wp_bind]
  have hm : (if status.status = .cancelled then .canceled else status.status) ∉
      [OrderStatus.awaitingProvider, .review] := by
    have hrep := status.reported
    generalize status.status = st at hrep
    revert st
    decide
  generalize (if status.status = .cancelled then OrderStatus.canceled else status.status) = mapped at hm
  refine wp_setOrderIf h (fun _ => ⟨rfl, rfl, rfl, rfl⟩) fun o₁ s₁ ho₁ h₁ => ?_
  have hf₁ : o₁.Fits (.captured r b) := by rcases ho₁ with rfl | rfl <;> exact hf
  refine wp_setOrderIf h₁ (fun _ => ⟨rfl, rfl, rfl, rfl⟩) fun o₂ s₂ ho₂ h₂ => ?_
  have hf₂ : o₂.Fits (.captured r b) := by rcases ho₂ with rfl | rfl <;> exact hf₁
  have hrest (o₃ : Order) (r₃ : Int) (s₃ : Session) (hf₃ : o₃.Fits (.captured r₃ b))
      (h₃ : Working strict base sent o₃ (.captured r₃ b) s₃) (c : Bool) :
      (setOrderIf c o₃ fun o => { o with updatedAt := now }).wp
        (fun o₄ s₄ => (setOrder o₄ fun o => { o with lastSyncedAt := .some now }).wp Q
          (InternalErrors strict sent) s₄) (InternalErrors strict sent) s₃ := by
    refine wp_setOrderIf h₃ (fun _ => ⟨rfl, rfl, rfl, rfl⟩) fun o₄ s₄ ho₄ h₄ => ?_
    have hf₄ : o₄.Fits (.captured r₃ b) := by rcases ho₄ with rfl | rfl <;> exact hf₃
    exact wp_setOrder h₄ (fun _ => ⟨rfl, rfl, rfl, rfl⟩) fun s₅ h₅ => hQ _ r₃ s₅ hf₄ h₅
  unfold applyStatusIf
  split
  · exact wp_applyStatus h₂ hf₂.2 hm fun o₃ r₃ s₃ hf₃ h₃ => hrest o₃ r₃ s₃ hf₃ h₃ _
  · exact hrest o₂ r s₂ hf₂ h₂ _

end

end Falaron
