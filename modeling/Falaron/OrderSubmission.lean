/-
What a panel's answer makes of a new order and its charge.

The charge should be released only when the panel has refused the order,
stay held with the order in review while the panel may have taken it on, and
be captured only with the id that the panel gave. `submission_settled_iff`
says for which answers this is what happens: an answer that is no JSON, one
that names no order, and a status below 400 end otherwise.
-/
import Falaron.OrderCancel
import Falaron.PerfectPanel

namespace Falaron

open Txn.Prog hiding pure
open Py (Json Dict field hasField)
open Text (Extra clip)
open PerfectPanel (HttpAnswer PanelFailure PanelResult PerfectPanelAdapter ProviderOrder receive)

/-! ## Answers -/

namespace PerfectPanel

/-- What `place_order` makes of a `create_order` call. -/
def answered : PanelResult ProviderOrder → Except SubmitError String
  | .ok placed => .ok placed.externalId
  | .error (.provider e) => .error (.provider e)
  | .error (.python _) => .error .other

namespace HttpAnswer

variable (repr : Json → String)

/-- The panel has refused the order: an HTTP 4xx, or an object with an error. -/
def Rejects : HttpAnswer → Prop
  | .status code => 400 ≤ code ∧ code < 500
  | .body (.object d) => (field d "error").truthy = true
  | _ => False

/-- An order's id is a number or a text. -/
def idOf : Json → Option String
  | .int n => .some (toString n)
  | .float x => .some (repr (.float x))
  | .str s => .some s
  | _ => .none

/-- The id that the answer gives to the order. -/
def orderId : HttpAnswer → Option String
  | .body (.object d) => (idOf repr (field d "order")).filter (· ≠ "")
  | _ => .none

/-- The panel may have taken the order on, and has not said under which id. -/
def MayHaveTaken : HttpAnswer → Prop
  | .status code => 500 ≤ code
  | .network | .notJson => True
  | .body v => ¬ (HttpAnswer.body v).Rejects ∧ (HttpAnswer.body v).orderId repr = .none

/-- The answers that are sorted as they should be. -/
def Classified : HttpAnswer → Prop
  | .status code => 400 ≤ code
  | .network => True
  | .notJson => False
  | .body v => (HttpAnswer.body v).Rejects ∨ ((HttpAnswer.body v).orderId repr).isSome = true

instance : (answer : HttpAnswer) → Decidable answer.Rejects
  | .status code => inferInstanceAs (Decidable (400 ≤ code ∧ code < 500))
  | .network | .notJson => .isFalse id
  | .body (.object d) => inferInstanceAs (Decidable ((field d "error").truthy = true))
  | .body .null | .body (.bool _) | .body (.int _) | .body (.float _) | .body (.str _) | .body (.array _) =>
    .isFalse id

instance : (answer : HttpAnswer) → Decidable (answer.Classified repr)
  | .status code => inferInstanceAs (Decidable (400 ≤ code))
  | .network => .isTrue trivial
  | .notJson => .isFalse id
  | .body _ => inferInstanceAs (Decidable (_ ∨ _))

variable {repr} {answer : HttpAnswer}

theorem not_mayHaveTaken_of_rejects (h : answer.Rejects) : ¬ answer.MayHaveTaken repr := by
  cases answer with
  | status code =>
    intro hm
    have hlt := h.2
    simp only [MayHaveTaken] at hm
    omega
  | network => cases h
  | notJson => cases h
  | body v => exact fun hm => hm.1 h

theorem orderId_of_mayHaveTaken (h : answer.MayHaveTaken repr) : answer.orderId repr = .none := by
  cases answer with
  | status code => rfl
  | network => rfl
  | notJson => rfl
  | body v => exact h.2

theorem ne_of_orderId {id : String} (h : answer.orderId repr = .some id) : id ≠ "" := by
  unfold orderId at h
  split at h
  · exact by simpa using (Option.filter_eq_some_iff.mp h).2
  · cases h

/-- An id is the text that `str` makes of it. -/
theorem orderId_text {d : Dict} {id : String} (h : (HttpAnswer.body (.object d)).orderId repr = .some id) :
    id = (field d "order").text repr := by
  obtain ⟨hid, -⟩ := Option.filter_eq_some_iff.mp h
  unfold idOf at hid
  split at hid
  · next hn => rw [hn]; exact (Option.some.inj hid).symm
  · next hx => rw [hx]; exact (Option.some.inj hid).symm
  · next hs => rw [hs]; exact (Option.some.inj hid).symm
  · cases hid

/-- An object without an order gives no id. -/
theorem orderId_of_missing {d : Dict} (h : ¬ hasField d "order" = true) :
    (HttpAnswer.body (.object d)).orderId repr = .none := by
  have hnone : d.find? (·.1 == "order") = .none := by
    rw [List.find?_eq_none]
    intro p hp hname
    exact h (List.any_eq_true.mpr ⟨p, hp, hname⟩)
  simp [orderId, field, hnone, idOf]

end HttpAnswer

/-- An object without an error is read for the order's id. -/
theorem answered_of_object {repr : Json → String} {a : PerfectPanelAdapter} {panel : Extra → HttpAnswer}
    {service link : String} {quantity : Int} {extra : Extra} {d : Dict}
    (hanswer : panel (a.form "add" (orderPayload service link quantity extra)) = .body (.object d))
    (he : ¬ (field d "error").truthy = true) : answered (createOrder repr a panel service link quantity extra) =
      if hasField d "order" = true then .ok ((field d "order").text repr)
      else .error (.provider ⟨"Panel did not return an order id", false⟩) := by
  simp only [createOrder, post, hanswer, receive, if_neg he, Bind.bind, Except.bind]
  split <;> rfl

end PerfectPanel

/-- The order's money and its row are as the answer asks for. -/
structure SettledRight (repr : Json → String) (answer : HttpAnswer) (d : Db) (o : Order) : Prop where
  released : o.status = .failed ∨ ofType .release (d.entriesFor o.publicId) ≠ [] → answer.Rejects
  review : answer.MayHaveTaken repr → o.status = .review ∧ d.isHeld o.publicId = true
  captured : ofType .capture (d.entriesFor o.publicId) ≠ [] →
    ∃ id, answer.orderId repr = .some id ∧ id ≠ "" ∧ o.providerOrderId = .some id

/-- The row that the provider's answer leaves. -/
def Order.AnsweredBy (o : Order) : Except SubmitError String → Prop
  | .ok id => o.status = .processing ∧ o.providerOrderId = .some id
  | .error e => o.status = if e.ambiguous then .review else .failed

section

variable {repr : Json → String} {answer : HttpAnswer} {d : Db} {o : Order} {f : Funds}

/-- A charge that is held is right for every answer that says nothing definite. -/
theorem settledRight_held (hst : o.status = .review) (ht : Funds.Trace o.chargePaise (d.entriesFor o.publicId) .held)
    (hc : 0 < o.chargePaise) : SettledRight repr answer d o := by
  obtain ⟨hreserve, hcapture, hrelease, -⟩ := ht.tells (Int.le_of_lt hc)
  refine ⟨?_, fun _ => ⟨hst, ?_⟩, fun h => absurd hcapture h⟩
  · rintro (hfailed | hreleased)
    · rw [hst] at hfailed
      cases hfailed
    · exact absurd hrelease hreleased
  · simp [Db.isHeld, hreserve, hcapture, hrelease]

/-- A charge that is released is right after a refusal only. -/
theorem settledRight_released (hst : o.status = .failed)
    (ht : Funds.Trace o.chargePaise (d.entriesFor o.publicId) .released) (hc : 0 < o.chargePaise) :
    SettledRight repr answer d o ↔ answer.Rejects := by
  obtain ⟨hcapture, -, -⟩ := ht.tells (Int.le_of_lt hc)
  refine ⟨fun h => h.released (.inl hst), fun h => ⟨fun _ => h, fun hm => ?_, fun hcap => absurd hcapture hcap⟩⟩
  exact absurd hm (HttpAnswer.not_mayHaveTaken_of_rejects h)

/-- A charge that is captured is right with the id from the answer only. -/
theorem settledRight_captured {id : String} (hst : o.status = .processing) (hid : o.providerOrderId = .some id)
    (ht : Funds.Trace o.chargePaise (d.entriesFor o.publicId) (.captured 0 false)) (hc : 0 < o.chargePaise) :
    SettledRight repr answer d o ↔ answer.orderId repr = .some id := by
  obtain ⟨⟨e, hcapture, -⟩, -, -, -, hrelease⟩ := ht.tells (Int.le_of_lt hc)
  constructor
  · intro h
    obtain ⟨id', hgiven, -, hid'⟩ := h.captured (by rw [hcapture]; exact List.cons_ne_nil _ _)
    rw [hgiven, ← hid', hid]
  · intro h
    refine ⟨?_, fun hm => ?_, fun _ => ⟨id, h, HttpAnswer.ne_of_orderId h, hid⟩⟩
    · rintro (hfailed | hreleased)
      · rw [hst] at hfailed
        cases hfailed
      · exact absurd (hrelease rfl) hreleased
    · rw [HttpAnswer.orderId_of_mayHaveTaken hm] at h
      cases h

/-- Which answers the order's row and money come out right for. -/
theorem settledRight_iff {a : PerfectPanelAdapter} {panel : Extra → HttpAnswer} {service link : String}
    {quantity : Int} {extra : Extra} (hanswer : panel (a.form "add" (PerfectPanel.orderPayload service link quantity extra)) = answer)
    (hrow : o.AnsweredBy (PerfectPanel.answered (PerfectPanel.createOrder repr a panel service link quantity extra)))
    (hsub : Submitted o f (PerfectPanel.answered (PerfectPanel.createOrder repr a panel service link quantity extra)))
    (ht : Funds.Trace o.chargePaise (d.entriesFor o.publicId) f) (hc : 0 < o.chargePaise) :
    SettledRight repr answer d o ↔ answer.Classified repr := by
  have hrefused {e : SubmitError} (he : e.ambiguous = false) (hrow : o.AnsweredBy (.error e))
      (hsub : Submitted o f (.error e)) : SettledRight repr answer d o ↔ answer.Rejects := by
    simp only [Submitted, he, Bool.false_eq_true, if_false] at hsub
    exact settledRight_released hsub.2 (hsub.1 ▸ ht) hc
  have hopen {e : SubmitError} (he : e.ambiguous = true) (hrow : o.AnsweredBy (.error e))
      (hsub : Submitted o f (.error e)) : SettledRight repr answer d o := by
    simp only [Submitted, Order.AnsweredBy, he, if_true] at hsub hrow
    exact settledRight_held hrow (hsub ▸ ht) hc
  cases answer with
  | status code =>
    simp only [PerfectPanel.createOrder, PerfectPanel.post, hanswer] at hrow hsub
    by_cases hcode : 500 ≤ code
    · refine iff_of_true (hopen (by simpa [SubmitError.ambiguous] using hcode) hrow hsub) ?_
      show 400 ≤ code
      omega
    · rw [hrefused (by simpa [SubmitError.ambiguous] using hcode) hrow hsub]
      simp only [HttpAnswer.Rejects, HttpAnswer.Classified]
      omega
  | network =>
    simp only [PerfectPanel.createOrder, PerfectPanel.post, hanswer] at hrow hsub
    exact iff_of_true (hopen rfl hrow hsub) trivial
  | notJson =>
    simp only [PerfectPanel.createOrder, PerfectPanel.post, hanswer] at hrow hsub
    exact hrefused rfl hrow hsub
  | body v =>
    have hother (hreject : ¬ (HttpAnswer.body v).Rejects) (hnone : (HttpAnswer.body v).orderId repr = .none) :
        (HttpAnswer.body v).Rejects ↔ (HttpAnswer.body v).Classified repr := by
      simp [HttpAnswer.Classified, hreject, hnone]
    cases v with
    | object d' =>
      by_cases he : (field d' "error").truthy = true
      · simp only [PerfectPanel.createOrder, PerfectPanel.post, hanswer, receive, he, if_true] at hrow hsub
        rw [hrefused rfl hrow hsub]
        exact iff_of_true he (.inl he)
      · rw [PerfectPanel.answered_of_object hanswer he] at hrow hsub
        by_cases ho : hasField d' "order" = true
        · rw [if_pos ho] at hrow hsub
          rw [settledRight_captured hrow.1 hrow.2 (hsub ▸ ht) hc]
          constructor
          · intro h
            exact .inr (by rw [h]; rfl)
          · rintro (h | h)
            · exact absurd h he
            · obtain ⟨id, hid⟩ := Option.isSome_iff_exists.mp h
              rw [hid, HttpAnswer.orderId_text hid]
        · rw [if_neg ho] at hrow hsub
          rw [hrefused rfl hrow hsub]
          exact hother he (HttpAnswer.orderId_of_missing ho)
    | _ =>
      simp only [PerfectPanel.createOrder, PerfectPanel.post, hanswer] at hrow hsub
      rw [hrefused rfl hrow hsub]
      exact hother id rfl

end

/-! ## Nothing stands in the way of an answer -/

/-- The owner's reserve covers the charge. -/
def Db.Reserved (d : Db) (o : Order) : Prop := ∃ user, d.users o.userId = .some user ∧
  o.chargePaise ≤ user.cachedReservedPaise ∧ user.cachedReservedPaise ≤ user.cachedBalancePaise

/-- The foreign key of the redemptions: each is for an order that is there. -/
def Db.RedeemedForOrders (db : Db) : Prop := ∀ r ∈ db.redemptions, ∃ o ∈ db.orders, o.publicId = r.orderId

section

variable {db d : Db} {s : Session} {o : Order} {E : Err → Session → Prop}

theorem wp_recordEvent_lands {now : Time} {toStatus : OrderStatus} {note : String} {Q : Order → Session → Prop}
    (hl : Lands d s) (hQ : ∀ d', d'.users = d.users → d'.redemptions = d.redemptions →
      Q { o with status := toStatus, updatedAt := now } { db := d', sent := s.sent }) :
    (recordEvent now o toStatus note).wp Q E s := by
  simp only [recordEvent, setOrder, wp_bind, wp_write, wp_pure']
  have hset := hl.stage (w := Stmt.updateOrder o.publicId fun o => { o with status := toStatus, updatedAt := now })
    rfl rfl
  refine wp_flush_lands (hset.stage (w := Stmt.insertOrderEvent ⟨o.publicId, o.status, toStatus, note, now⟩)
    rfl rfl) ?_
  exact hQ _ rfl rfl

theorem wp_audit_lands {now : Time} {actor action : String} {target reason : Option String}
    {Q : Unit → Session → Prop} (hl : Lands d s) (hQ : ∀ d', Q () { db := d', sent := s.sent }) :
    (audit now actor action target reason).wp Q E s := by
  simp only [audit, wp_bind, wp_write]
  exact wp_flush_lands (hl.stage rfl rfl) (hQ _)

theorem wp_captureCharge_lands {Q : Unit → Session → Prop} (hl : Lands d s) (hc : 0 < o.chargePaise)
    (hr : d.Reserved o) (hQ : ∀ d', Q () { db := d', sent := s.sent }) : (captureCharge o).wp Q E s := by
  obtain ⟨user, hu, hle, hcovered⟩ := hr
  simp only [captureCharge, wp_bind]
  refine wp_post hl.flush (absurd hc) (fun err href => ?_) (fun e _ _ => hQ d) fun e _ => hQ (d.posted e)
  exact (href.elim hc hu (captureDraft_eq (Int.not_lt.mpr hle)) (by simp only [orderPosting]; omega)).elim

theorem wp_releaseCouponUse_lands {order : Order} {loaded : Option Coupon} {Q : Unit → Session → Prop}
    (hl : Lands d s) (hQ : ∀ d' s', Lands d' s' → s'.sent = s.sent → Q () s') :
    (releaseCouponUse order loaded).wp Q E s := by
  unfold releaseCouponUse
  split
  · exact hQ d s hl rfl
  simp only [wp_bind, wp_query]
  split
  · exact hQ d s hl rfl
  next r _ =>
  simp only [wp_bind, wp_write]
  have hdeleted := hl.stage (w := Stmt.deleteRedemption r) rfl rfl
  have huncount (code : String) (coupon : Option Coupon) : (uncountUse code coupon).wp Q E
      { s with staged := s.staged ++ [Stmt.deleteRedemption r] } := by
    cases coupon with
    | none => exact hQ _ _ hdeleted rfl
    | some coupon =>
      simp only [uncountUse]
      split
      · exact hQ _ _ (hdeleted.stage (w := Stmt.setUsedCount code (coupon.usedCount - 1)) rfl rfl) rfl
      · exact hQ _ _ hdeleted rfl
  cases loaded with
  | none => exact huncount _ _
  | some coupon => exact huncount _ _

theorem wp_failAndRelease_lands {now : Time} {reason tag : String} {loaded : Option Coupon}
    {Q : Order → Session → Prop} (hl : Lands d s) (hc : 0 < o.chargePaise) (hr : d.Reserved o)
    (hQ : ∀ o' d', o'.status = .failed → Q o' { db := d', sent := s.sent }) :
    (failAndRelease now o reason tag loaded).wp Q E s := by
  obtain ⟨user, hu, hle, hcovered⟩ := hr
  -- what follows the release, which may have been made before
  have hrest (d' : Db) : (setOrder o fun o => { o with failReason := .some (clip 255 reason) }).wp
      (fun failed s => (releaseCouponUse failed loaded).wp (fun _ s =>
        (recordEvent now failed .failed (clip 255 reason)).wp Q E s) E s) E { db := d', sent := s.sent } := by
    simp only [setOrder, wp_bind, wp_write, wp_pure']
    refine wp_releaseCouponUse_lands ((Lands.settled d' s.sent).stage (w := Stmt.updateOrder o.publicId _) rfl rfl)
      fun d'' s'' hl'' hsent => wp_recordEvent_lands hl'' fun d₃ _ _ => ?_
    rw [hsent]
    exact hQ _ d₃ rfl
  simp only [failAndRelease, wp_bind]
  refine wp_post hl.flush (absurd hc) (fun err href => ?_) (fun e _ _ => hrest d) fun e _ => hrest (d.posted e)
  exact (href.elim hc hu (releaseDraft_eq _ _) (by simp only [orderPosting]; omega)).elim

/-- Whatever the provider has answered, it is settled. -/
theorem wp_settleSubmission_answered {now : Time} {loaded : Option Coupon} {answer : Except SubmitError String}
    {Q : Order → Session → Prop} (hl : Lands d s) (hc : 0 < o.chargePaise) (hr : d.Reserved o)
    (hQ : ∀ o' d', o'.AnsweredBy answer → Q o' { db := d', sent := s.sent }) :
    (settleSubmission now o loaded answer).wp Q E s := by
  cases answer with
  | ok externalId =>
    simp only [settleSubmission, setOrder, wp_bind, wp_write, wp_pure']
    have hset := hl.stage (w := Stmt.updateOrder o.publicId fun o => { o with providerOrderId := .some externalId })
      rfl rfl
    refine wp_captureCharge_lands hset hc hr fun d₁ => ?_
    exact wp_recordEvent_lands (.settled d₁ s.sent) fun d₂ _ _ => hQ _ d₂ ⟨rfl, rfl⟩
  | error e =>
    have hfail (he : e.ambiguous = false) (reason tag : String) :
        (failAndRelease now o reason tag loaded).wp Q E s := by
      refine wp_failAndRelease_lands hl hc hr fun o' d' hst => hQ o' d' ?_
      simp only [Order.AnsweredBy, he]
      exact hst
    cases e with
    | other => exact hfail rfl _ _
    | provider e =>
      simp only [settleSubmission]
      split
      · next hretry =>
        simp only [setOrder, wp_bind, wp_write, wp_pure']
        have hset := hl.stage (w := Stmt.updateOrder o.publicId fun o =>
          { o with failReason := .some "Waiting for provider confirmation" }) rfl rfl
        refine wp_recordEvent_lands hset fun d₁ _ _ => ?_
        refine wp_audit_lands (.settled d₁ s.sent) fun d₂ => hQ _ d₂ ?_
        simp only [Order.AnsweredBy, SubmitError.ambiguous, hretry, if_true]
      · next hretry => exact hfail (by simpa [SubmitError.ambiguous] using hretry) _ _

/-- A reserve that is posted covers the charge. -/
theorem Db.Reserved.posted {reason : String} {key : Key} {e : LedgerEntry}
    (hcovered : ∀ u user, d.users u = .some user → 0 ≤ user.cachedReservedPaise)
    (he : Posts d (orderPosting o o.chargePaise reason) .reserve key (reserveDraft o.chargePaise) e) :
    (d.posted e).Reserved o := by
  obtain ⟨user, dr, hu, hdr, heq, -, hle⟩ := he.drafted
  have hnonneg := hcovered _ user hu
  have hav : ¬ user.availablePaise < o.chargePaise := by
    intro hlt
    rw [reserveDraft, if_pos hlt] at hdr
    cases hdr
  rw [reserveDraft, if_neg hav] at hdr
  cases hdr
  refine ⟨_, by rw [Db.posted_users, if_pos (by rw [heq]; rfl)]; exact congrArg _ hu, ?_, ?_⟩
  · rw [heq]
    show o.chargePaise ≤ user.cachedReservedPaise + o.chargePaise
    omega
  · rw [heq]
    exact hle

/-- A booked order will be in the tables, with its charge on the reserve. -/
theorem wp_bookOrder_lands {now : Time} {quoted : Quoted} (hb : OrderBooks False .none db) (hr : db.RedeemedForOrders)
    (hc : 0 < o.chargePaise) : (bookOrder now o quoted).wp (fun o' s => ∃ d, Lands d s ∧ d.Reserved o')
      (fun _ _ => True) { db := db } := by
  let Fresh (s : Session) : Prop := s.db.users = db.users ∧ s.db.ledger = db.ledger ∧
    s.db.redemptions = db.redemptions ∧ ∀ o' ∈ db.orders, o'.publicId ≠ o.publicId
  simp only [bookOrder, wp_bind]
  refine wp_write_will (J := fun s => s.db = db) (K := Fresh) (.of rfl rfl) ?_ fun s₁ _ h₁ => ?_
  · rintro s rfl hnew
    refine ⟨rfl, rfl, rfl, fun o' ho' => ?_⟩
    have hkeys := List.all_eq_true.mp hnew o' ho'
    simp only [Bool.and_eq_true, bne_iff_ne] at hkeys
    exact hkeys.1
  refine wp_flushed_will h₁ trivial fun s₂ hst₂ _ h₂ => ?_
  refine wp_write_will (K := Fresh) (.of hst₂ h₂) (fun _ h _ => h) fun s₃ _ h₃ => ?_
  have hresale : (recordResale o quoted).wp (fun _ s => s.Will Fresh) (fun _ _ => True) s₃ := by
    unfold recordResale
    split
    · exact wp_write_will (K := Fresh) h₃ (fun _ h _ => h) fun _ _ h => h
    · exact h₃
  refine wp_mono hresale (fun _ s₄ h₄ => ?_) fun _ _ _ => trivial
  rw [reserve]
  cases hf : Txn.flushAll s₄.staged s₄.db with
  | none => exact wp_post_stuck hf hc trivial
  | some d =>
    obtain ⟨husers, hledger, hredeemed, hfresh⟩ := h₄ d hf
    refine wp_post hf (fun _ => trivial) (fun _ _ => trivial) (fun e _ he => ?_) fun e he => ?_
    · -- nothing was reserved for an order that was not there
      obtain ⟨hm, hkey⟩ := Db.findEntry_mem he
      rw [show d.ledger = db.ledger from hledger] at hm
      have href : e.orderRef = .some o.publicId := by rw [(hb.keys e hm).1, hkey]; rfl
      obtain ⟨o', ho', hp, -⟩ := hb.known e hm _ href
      exact absurd hp (hfresh o' ho')
    · have hreserved : (d.posted e).Reserved o := .posted (fun u user hu => (hb.covered u user (husers ▸ hu)).1) he
      refine wp_recordEvent_lands (.settled (d.posted e) s₄.sent) fun d' husers' hredeemed' => ?_
      have hreserved' : d'.Reserved o := by
        rw [Db.Reserved, husers']
        exact hreserved
      unfold redeemCoupon
      split
      · exact ⟨d', .settled d' _, hreserved'⟩
      next code _ =>
      have hadmits (d'' : Db) (h : d''.redemptions = d'.redemptions) :
          (Stmt.insertRedemption ⟨code, o.userId, o.publicId⟩).admits d'' = true := by
        have hnot : ⟨code, o.userId, o.publicId⟩ ∉ db.redemptions := by
          intro hm
          obtain ⟨o', ho', hp⟩ := hr _ hm
          exact hfresh o' ho' hp
        rw [← hredeemed, show d.redemptions = (d.posted e).redemptions from rfl, ← hredeemed', ← h] at hnot
        simpa [Stmt.insertRedemption] using hnot
      simp only [wp_bind]
      cases quoted.coupon with
      | none => exact ⟨_, (Lands.settled d' _).stage (hadmits d' rfl) rfl, hreserved'⟩
      | some coupon =>
        have hcounted := (Lands.settled d' s₄.sent).stage (w := Stmt.setUsedCount code (coupon.usedCount + 1)) rfl rfl
        exact ⟨_, hcounted.stage (hadmits _ rfl) rfl, hreserved'⟩

/-- Once the panel has been asked, the order is settled by what it answers. -/
def Settles (submission : Submission) (o : Order) (s : Session) : Prop :=
  s.sent ≠ [] → o.AnsweredBy submission.answer ∧ ∃ d, Lands d s

theorem wp_submitOrder_settles {now : Time} {service : Service} {loaded : Option Coupon} {submission : Submission}
    (hl : Lands d s) (hsent : s.sent = []) (hc : 0 < o.chargePaise) (hr : d.Reserved o) :
    (submitOrder now o service loaded submission).wp (Settles submission) E s := by
  simp only [submitOrder, wp_bind, wp_query]
  split
  · exact wp_settleSubmission_answered hl hc hr fun o' d' _ hasked => absurd hsent hasked
  · simp only [wp_bind, wp_call]
    have hl' : Lands d { s with
        sent := s.sent ++ [.createOrder o.publicId service.providerServiceId o.link o.quantity submission.accepted] } :=
      ⟨hl.flush, hl.catalog⟩
    exact wp_settleSubmission_answered hl' hc hr fun o' d' hrow _ => ⟨hrow, d', .settled d' _⟩

theorem wp_placeNew_settles {now : Time} {publicId link : String} {userId : Int} {user : User} {service : Service}
    {extra : Extra} {quoted : Quoted} {key : Key} {submission : Submission} (hb : OrderBooks False .none db)
    (hr : db.RedeemedForOrders) (hu : db.users userId = .some user) (hc : 0 < quoted.quote.chargePaise) :
    (placeNew now publicId userId user service link extra quoted key submission).wp (Settles submission)
      (fun _ s => s.sent = []) { db := db } := by
  simp only [placeNew, wp_bind, wp_require, decide_eq_true_eq]
  split
  case isFalse => exact trivial
  next hav =>
  let order := newOrder now publicId userId service link extra quoted.quote key
  have hcharge : 0 < order.chargePaise := hc
  have hbooked : (bookOrder now order quoted).wp (fun o' s => o'.chargePaise = order.chargePaise ∧ s.sent = [])
      (InternalErrors False []) { db := db } :=
    wp_bookOrder hb hu hcharge hav rfl fun _ _ _ _ hch _ hw => ⟨hch, hw.sent⟩
  refine wp_mono (wp_and hbooked (wp_bookOrder_lands hb hr hcharge)) ?_ fun _ _ he => he.1.2
  rintro o' s ⟨⟨hch, hsent⟩, d, hl, hreserved⟩
  exact wp_submitOrder_settles hl hsent (hch ▸ hcharge) hreserved

theorem wp_placeOrder_settles {now : Time} {publicId : String} {userId : Int} {request : OrderRequest}
    {submission : Submission} (hb : OrderBooks False .none db) (hk : OrderKeys db) (hr : db.RedeemedForOrders) :
    (placeOrder now publicId userId request submission).wp (Settles submission) (fun _ s => s.sent = [])
      { db := db } := by
  simp only [placeOrder_eq, wp_bind]
  refine (checkRequest_reads now userId request).wp (fun a => ?_) fun _ _ => rfl
  obtain ⟨service, link, extra, quoted⟩ := a
  simp only [wp_require, decide_eq_true_eq]
  split
  case isFalse => exact trivial
  next hc =>
  simp only [lockUser, wp_bind]
  refine wp_flush rfl ?_
  simp only [wp_lockRow]
  cases hu : db.users userId with
  | none => exact rfl
  | some user =>
    have hasks : request.Asks userId (request.key now userId service.id link extra quoted.quote.couponCode) :=
      ⟨now, _, _, _, _, rfl⟩
    simp only [wp_pure', placeUnder, wp_bind]
    refine hk.wp_loadIdempotentOrder hb.ids hasks.orderRef (fun _ => wp_placeNew_settles hb hr hu hc) fun o _ _ => ?_
    cases hold : (Option.some o).filter (·.replayable) with
    | none => exact wp_placeNew_settles hb hr hu hc
    | some o => exact fun hasked => absurd rfl hasked

end

/-- A thousand likes, with what the panel answers to them. -/
def submissionOf (answer : HttpAnswer) : Submission where
  accepted := true
  answer := PerfectPanel.answered
    (PerfectPanel.createOrder (fun _ => "") ⟨"key"⟩ (fun _ => answer) "11" "https://t.me/x" 1000 [])
  told _ _ := rfl

def shopAfter (answer : HttpAnswer) : Db :=
  (placeOrder 0 "A" 7 (likesFor "a") (submissionOf answer)).commit (fun _ => false) shop

end Falaron
