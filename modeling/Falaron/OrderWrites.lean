/-
What the order engine writes.

Every entry a call makes is under a key of its order, except for the
commission that may follow a completion. `OrderStmts P` says that `P` holds
of the other statements, up to those that pay back what is left of a charge
(`PaybackStmts P`), and each program of the engine then makes statements with
`P` only.
-/
import Falaron.OrderCalls
import Falaron.Routine

namespace Falaron

open Txn.Prog hiding pure

/-- What is paid under the key is what is left of an order's charge. -/
def Key.isRefund : Key → Bool
  | .refund _ _ => true
  | _ => false

/-- `P` holds of each kind of statement that moves an order along. -/
structure OrderStmts (P : Stmt → Prop) : Prop where
  wallet : ∀ u balance reserved, P (Stmt.setWallet u balance reserved)
  entry : ∀ e, e.idempotencyKey.orderRef.isSome → e.idempotencyKey.isRefund = false → P (Stmt.insertEntry e)
  order : ∀ o, P (Stmt.insertOrder o)
  row : ∀ publicId g, KeepsOrder g → P (Stmt.updateOrder publicId g)
  event : ∀ e, P (Stmt.insertOrderEvent e)
  record : ∀ key r, key.isRefund = false → P (Stmt.insertRecord key r)
  resale : ∀ r, P (Stmt.insertResellerOrder r)
  usedCount : ∀ code n, P (Stmt.setUsedCount code n)
  redeem : ∀ r, P (Stmt.insertRedemption r)
  unredeem : ∀ r, P (Stmt.deleteRedemption r)
  audit : ∀ a, P (Stmt.insertAudit a)

/-- `P` holds of what pays back the rest of a charge. -/
structure PaybackStmts (P : Stmt → Prop) : Prop where
  entry : ∀ e, e.idempotencyKey.orderRef.isSome → e.idempotencyKey.isRefund = true → P (Stmt.insertEntry e)
  record : ∀ key r, key.isRefund = true → P (Stmt.insertRecord key r)

theorem OrderStmts.routine : OrderStmts Stmt.Routine where
  wallet := .setWallet
  entry e _ _ := .insertEntry e
  order := .insertOrder
  row publicId g _ := .updateOrder publicId g
  event := .insertOrderEvent
  record key r _ := .insertRecord key r
  resale := .insertResellerOrder
  usedCount := .setUsedCount
  redeem := .insertRedemption
  unredeem := .deleteRedemption
  audit := .insertAudit

theorem PaybackStmts.routine : PaybackStmts Stmt.Routine := ⟨fun e _ _ => .insertEntry e, fun key r _ => .insertRecord key r⟩

section

variable {P : Stmt → Prop} {o : Order}

theorem setOrder_writes (h : OrderStmts P) {g : Order → Order} (hg : KeepsOrder g) : (setOrder o g).Writes P :=
  .bind (.write (h.row _ _ hg)) fun _ => .pure _

theorem setOrderIf_writes (h : OrderStmts P) {c : Bool} {g : Order → Order} (hg : KeepsOrder g) :
    (setOrderIf c o g).Writes P := .ite (setOrder_writes h hg) (.pure _)

theorem recordEvent_writes (h : OrderStmts P) {now : Time} {toStatus : OrderStatus} {note : String} :
    (recordEvent now o toStatus note).Writes P :=
  .bind (setOrder_writes h fun _ => ⟨rfl, rfl, rfl, rfl⟩) fun _ => .bind (.write (h.event _)) fun _ =>
    .bind flush_writes fun _ => .pure _

/-- A posting under a key of its order. -/
theorem orderPosting_writes (h : OrderStmts P) {amount : Int} {reason refusal : String} {t : EntryType} {key : Key}
    {draft : User → Except Err Draft} (hkey : key.orderRef.isSome) (hplain : key.isRefund = false) :
    (post (orderPosting o amount reason) t refusal key draft).Writes P :=
  post_writes (h.wallet _) fun _ => h.entry _ hkey hplain

/-- A credit under a key of its order. -/
theorem orderCredit_writes (h : OrderStmts P) (hback : PaybackStmts P) {amount : Int} {reason : String} {key : Key}
    {p : String} (hkey : key.orderRef = .some p) : (credit (orderPosting o amount reason) (.some key)).Writes P := by
  rw [credit, Key.orElse_of_orderRef hkey]
  have hsome : key.orderRef.isSome := by rw [hkey]; rfl
  cases hk : key.isRefund with
  | false => exact orderPosting_writes h hsome hk
  | true => exact post_writes (h.wallet _) fun _ => hback.entry _ hsome hk

theorem captureCharge_writes (h : OrderStmts P) : (captureCharge o).Writes P :=
  .bind (orderPosting_writes h rfl rfl) fun _ => .pure _

/-! ## Placing an order -/

theorem releaseCouponUse_writes (h : OrderStmts P) {loaded : Option Coupon} : (releaseCouponUse o loaded).Writes P := by
  have huncount (code : String) (coupon : Option Coupon) : (uncountUse code coupon).Writes P := by
    cases coupon with
    | none => exact .pure _
    | some _ => exact .ite (.write (h.usedCount _ _)) (.pure _)
  unfold releaseCouponUse
  split
  · exact .pure _
  refine .bind (.query _) fun redemption => ?_
  cases redemption with
  | none => exact .pure _
  | some _ =>
    refine .bind (.write (h.unredeem _)) fun _ => .bind ?_ fun _ => huncount _ _
    cases loaded with
    | none => exact .query _
    | some _ => exact .pure _

theorem failAndRelease_writes (h : OrderStmts P) {now : Time} {reason tag : String} {loaded : Option Coupon} :
    (failAndRelease now o reason tag loaded).Writes P :=
  .bind (orderPosting_writes h rfl rfl) fun _ => .bind (setOrder_writes h fun _ => ⟨rfl, rfl, rfl, rfl⟩) fun _ =>
    .bind (releaseCouponUse_writes h) fun _ => recordEvent_writes h

theorem settleSubmission_writes (h : OrderStmts P) {now : Time} {loaded : Option Coupon}
    (answer : Except SubmitError String) : (settleSubmission now o loaded answer).Writes P := by
  cases answer with
  | ok _ =>
    exact .bind (setOrder_writes h fun _ => ⟨rfl, rfl, rfl, rfl⟩) fun _ => .bind (captureCharge_writes h) fun _ =>
      recordEvent_writes h
  | error e =>
    cases e with
    | other => exact failAndRelease_writes h
    | provider _ =>
      exact .ite (.bind (setOrder_writes h fun _ => ⟨rfl, rfl, rfl, rfl⟩) fun _ => .bind (recordEvent_writes h) fun _ =>
        .bind (audit_writes h.audit _ _ _ _ _) fun _ => .pure _) (failAndRelease_writes h)

theorem submitOrder_writes (h : OrderStmts P) {now : Time} {service : Service} {loaded : Option Coupon}
    {submission : Submission} : (submitOrder now o service loaded submission).Writes P := by
  refine .bind (.query _) fun provider => ?_
  cases provider with
  | none => exact settleSubmission_writes h _
  | some _ => exact .bind (.call _) fun _ => settleSubmission_writes h _

theorem redeemCoupon_writes (h : OrderStmts P) {loaded : Option Coupon} : (redeemCoupon o loaded).Writes P := by
  unfold redeemCoupon
  split
  · exact .pure _
  refine .bind ?_ fun _ => .write (h.redeem _)
  cases loaded with
  | none => exact .pure _
  | some _ => exact .write (h.usedCount _ _)

theorem bookOrder_writes (h : OrderStmts P) (hrecord : ∀ r, P (Stmt.insertRecord o.idempotencyKey r)) {now : Time}
    {quoted : Quoted} : (bookOrder now o quoted).Writes P := by
  have hresale : (recordResale o quoted).Writes P := by
    unfold recordResale
    split
    · exact .write (h.resale _)
    · exact .pure _
  exact .bind (.write (h.order _)) fun _ => .bind flush_writes fun _ => .bind (.write (hrecord _)) fun _ =>
    .bind hresale fun _ => .bind (orderPosting_writes h rfl rfl) fun _ => .bind (recordEvent_writes h) fun _ =>
    .bind (redeemCoupon_writes h) fun _ => .pure _

theorem placeNew_writes (h : OrderStmts P) {now : Time} {publicId link : String} {userId : Int} {user : User}
    {service : Service} {extra : Text.Extra} {quoted : Quoted} {key : Key} {submission : Submission}
    (hrecord : ∀ r, P (Stmt.insertRecord key r)) :
    (placeNew now publicId userId user service link extra quoted key submission).Writes P :=
  .bind (.require _ _) fun _ => .bind (bookOrder_writes h hrecord) fun _ => submitOrder_writes h

theorem loadIdempotentOrder_writes (key : Key) : (loadIdempotentOrder key).Writes P := by
  refine .bind (.query _) fun r => ?_
  split
  · exact .query _
  · exact .query _

theorem placeOrder_writes (h : OrderStmts P) {now : Time} {publicId : String} {userId : Int} {request : OrderRequest}
    {submission : Submission} : (placeOrder now publicId userId request submission).Writes P := by
  refine .bind (checkRequest_reads _ _ _).writes fun _ => .bind (.require _ _) fun _ => ?_
  refine .bind (lockUser_writes _) fun _ => .bind (loadIdempotentOrder_writes _) fun existing => ?_
  split
  · exact .pure _
  · refine placeNew_writes h fun r => h.record _ r ?_
    split
    · rfl
    · unfold OrderRequest.key
      split <;> rfl

/-! ## Following the provider -/

theorem maybePartialRefund_writes (h : OrderStmts P) {remains : Int} : (maybePartialRefund o remains).Writes P := by
  refine .ite (.pure _) (.bind (.query _) fun record => ?_)
  split
  · exact .pure _
  refine .bind (.query _) fun _ => .ite (.pure _) (.bind (.query _) fun user => ?_)
  split
  · exact .pure _
  · exact .bind (orderPosting_writes h rfl rfl) fun _ => .write (h.record _ _ rfl)

theorem refundRest_writes (h : OrderStmts P) {remains : Option Int} : (refundRest o remains).Writes P := by
  cases remains with
  | none => exact .pure _
  | some _ => exact maybePartialRefund_writes h

theorem refundIfNeeded_writes (h : OrderStmts P) (hback : PaybackStmts P) {now : Time} {mapped : OrderStatus} :
    (refundIfNeeded now o mapped).Writes P := by
  refine .bind (.query _) fun record => ?_
  split
  · exact .pure _
  refine .bind (.query _) fun user => ?_
  split
  · exact .pure _
  refine .ite (.pure _) (.bind (.query _) fun _ => .ite (.pure _) (.bind ?_ fun _ => ?_))
  · exact .bind (orderCredit_writes h hback rfl) fun _ => .write (hback.record _ _ rfl)
  · exact .ite (recordEvent_writes h) (.pure _)

theorem creditOrderCommission_writes (h : OrderStmts P)
    (hearn : ∀ e p, e.idempotencyKey = .reford p → P (Stmt.insertEntry e)) :
    (creditOrderCommission o).Writes P := by
  refine .ite (.pure _) (.bind (.query _) fun buyer => ?_)
  split
  · exact .pure _
  · exact .bind (.query _) fun _ => .ite (.pure _) (.bind (referrerOf_writes _) fun _ =>
      creditCommission_writes (fun _ => rfl) h.wallet (fun e hkey _ => hearn e _ hkey) _ _ _ _)

/-- A report writes what moves an order along, and the commission that may follow. -/
theorem applyReport_writes (h : OrderStmts P) (hback : PaybackStmts P)
    (hearn : ∀ e p, e.idempotencyKey = .reford p → P (Stmt.insertEntry e))
    {now : Time} {status : ProviderStatus} : (applyReport now o status).Writes P := by
  have hstatus (order : Order) (mapped : OrderStatus) (remains : Option Int) :
      (applyStatus now order mapped remains).Writes P :=
    .bind (recordEvent_writes h) fun _ => .ite (.bind (refundRest_writes h) fun _ => .pure _) (.ite (refundIfNeeded_writes h hback)
      (.ite (.bind (creditOrderCommission_writes h hearn) fun _ => .pure _) (.pure _)))
  have hset {order : Order} {c : Bool} {g : Order → Order} (hg : KeepsOrder g) : (setOrderIf c order g).Writes P :=
    setOrderIf_writes h hg
  exact .bind (hset fun _ => ⟨rfl, rfl, rfl, rfl⟩) fun _ => .bind (hset fun _ => ⟨rfl, rfl, rfl, rfl⟩) fun _ =>
    .bind (.ite (hstatus _ _ _) (.pure _)) fun _ => .bind (hset fun _ => ⟨rfl, rfl, rfl, rfl⟩) fun _ =>
    setOrder_writes h fun _ => ⟨rfl, rfl, rfl, rfl⟩

theorem loadOrder_writes (publicId : String) : (loadOrder publicId).Writes P := by
  refine .bind (.query _) fun found => ?_
  cases found with
  | none => exact .throw _
  | some _ => exact .pure _

theorem loadUser_writes (userId : Int) : (loadUser userId).Writes P := by
  refine .bind (.query _) fun user => ?_
  cases user with
  | none => exact .throw _
  | some _ => exact .pure _

theorem adapterFor_writes (providerId : String) : (adapterFor providerId).Writes P := by
  refine .bind (.query _) fun provider => ?_
  cases provider with
  | none => exact .throw _
  | some _ => exact .pure _

theorem syncOrder_writes (h : OrderStmts P) (hback : PaybackStmts P)
    (hearn : ∀ e p, e.idempotencyKey = .reford p → P (Stmt.insertEntry e))
    {now : Time} {answer : Except ProviderError ProviderStatus} : (syncOrder now o answer).Writes P := by
  refine .ite (.pure _) (.bind (adapterFor_writes _) fun _ => .bind (.call _) fun _ => ?_)
  cases answer with
  | error _ => exact setOrder_writes h fun _ => ⟨rfl, rfl, rfl, rfl⟩
  | ok _ => exact applyReport_writes h hback hearn

/-! ## The other calls -/

theorem requestRefill_writes (h : OrderStmts P) {now : Time} {publicId : String} {userId : Int}
    {answer : Except ProviderError String} : (requestRefill now publicId userId answer).Writes P := by
  refine .bind (loadOrder_writes _) fun order => .bind (loadUser_writes _) fun _ => ?_
  refine .bind assertRefillsOpen_reads.writes fun _ => .bind (.require _ _) fun _ => .bind (.require _ _) fun _ => ?_
  refine .bind (.require _ _) fun _ => .bind (.require _ _) fun _ => .bind (adapterFor_writes _) fun _ => ?_
  refine .bind (.call _) fun _ => ?_
  cases answer with
  | error _ => exact .throw _
  | ok _ =>
    exact .bind (setOrder_writes h fun _ => ⟨rfl, rfl, rfl, rfl⟩) fun _ => .bind (recordEvent_writes h) fun _ =>
      .pure _

theorem requestCancel_writes (h : OrderStmts P) (hback : PaybackStmts P) {now : Time} {publicId : String} {userId : Int}
    {answer : Except ProviderError Unit} : (requestCancel now publicId userId answer).Writes P := by
  have hprovider (order : Order) : (cancelAtProvider order answer).Writes P := by
    refine .ite (.bind (adapterFor_writes _) fun _ => .bind (.call _) fun _ => ?_) (.pure _)
    cases answer with
    | error _ => exact .throw _
    | ok _ => exact .pure _
  have hmoney (order : Order) : (cancelMoney order).Writes P := by
    refine .bind (.query _) fun user => ?_
    split
    · exact .pure _
    · exact .ite (.pure _) (.ite (.bind (orderPosting_writes h rfl rfl) fun _ => .pure _) (.bind (.query _) fun _ =>
        .ite (.pure _) (.bind (orderCredit_writes h hback rfl) fun _ => .pure _)))
  refine .bind (loadOrder_writes _) fun order => .bind (loadUser_writes _) fun _ => ?_
  refine .bind (.require _ _) fun _ => .bind (.require _ _) fun _ => .bind (.require _ _) fun _ => ?_
  exact .bind (hprovider _) fun _ => .bind (hmoney _) fun _ => .bind (recordEvent_writes h) fun _ => .pure _

theorem resolveReviewOrder_writes (h : OrderStmts P) {now : Time} {publicId actor : String} {releaseFunds : Bool}
    {attach : Option String} : (resolveReviewOrder now publicId releaseFunds attach actor).Writes P := by
  refine .bind (loadOrder_writes _) fun order => .bind (.require _ _) fun _ => .bind (.require _ _) fun _ => ?_
  refine .bind (.query _) fun owner => ?_
  split
  · exact .throw _
  · exact .ite (.bind (failAndRelease_writes h) fun _ => audit_writes h.audit _ _ _ _ _)
      (.bind (setOrder_writes h fun _ => ⟨rfl, rfl, rfl, rfl⟩) fun _ => .bind (captureCharge_writes h) fun _ =>
      .bind (setOrder_writes h fun _ => ⟨rfl, rfl, rfl, rfl⟩) fun _ => .bind (recordEvent_writes h) fun _ =>
      audit_writes h.audit _ _ _ _ _)

theorem flagStuckOrders_writes (h : OrderStmts P) {now : Time} {olderThanSeconds : Int} {limit : Nat} :
    (flagStuckOrders now olderThanSeconds limit).Writes P := by
  have hflag (order : Order) : (flagStuckOrder now order).Writes P :=
    .bind (setOrder_writes h fun _ => ⟨rfl, rfl, rfl, rfl⟩) fun _ => .bind (recordEvent_writes h) fun _ =>
      audit_writes h.audit _ _ _ _ _
  exact .bind (.query _) fun _ => .forEach hflag _

/-- A report is the only one of the calls that a commission may follow. -/
def OrderCall.Reports : OrderCall → Prop
  | .sync .. => True
  | _ => False

/-- A call that may pay back the rest of a charge. -/
def OrderCall.PaysBack : OrderCall → Prop
  | .sync .. | .cancel .. => True
  | _ => False

theorem OrderCall.writes (h : OrderStmts P) (c : OrderCall) (hback : c.PaysBack → PaybackStmts P)
    (hearn : c.Reports → ∀ e p, e.idempotencyKey = .reford p → P (Stmt.insertEntry e)) : c.prog.Writes P := by
  cases c with
  | place => exact .bind (placeOrder_writes h) fun _ => .pure _
  | sync => exact .bind (loadOrder_writes _) fun _ => .bind (syncOrder_writes h (hback trivial) (hearn trivial)) fun _ => .pure _
  | refill => exact requestRefill_writes h
  | cancel => exact requestCancel_writes h (hback trivial)
  | resolve => exact resolveReviewOrder_writes h
  | flagStuck => exact flagStuckOrders_writes h

/-- The catalog, and who the users are, stay what they are. -/
theorem OrderCall.sameHouse (c : OrderCall) (caught : Err → Bool) (db : Db) : db.SameHouse (c.prog.commit caught db) :=
  (c.writes .routine (fun _ => .routine) fun _ e _ _ => .insertEntry e).commit (fun _ hw => hw.keeps db) (.refl db) caught

end

end Falaron
