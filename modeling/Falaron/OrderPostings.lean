/-
The money the order engine moves.

Each posting of a call is one on behalf of an order, under a key of that
order, or the commission on an order. Users and payments are left alone.
-/
import Falaron.OrderWrites
import Falaron.Postings

namespace Falaron

open Txn.Prog hiding pure

/-- The calls of the wallet the order engine makes. -/
inductive WalletCall.OfOrders : WalletCall → Prop
  | order {c : WalletCall} {p : String} : c.posting.referenceType = .some "order" → c.posting.referenceId = .some p →
      c.key.orderRef = .some p → OfOrders c
  | commission {p : Posting} {id : String} : p.referenceType = .some "referral" →
      OfOrders (.credit p (.some (.reford id)))

/-- Wallets, ledger and payments are the same. -/
structure OrdersBeside (a b : Db) : Prop where
  ledger : b.ledger = a.ledger
  users : b.users = a.users
  payments : b.payments = a.payments

section

variable {a : Db} {o : Order}

/-- The programs of the order engine. -/
abbrev OrderMoney (a : Db) : Session → Prop := Session.Posting WalletCall.OfOrders OrdersBeside a

theorem setOrder_beside (g : Order → Order) : (setOrder o g).Writes (Stmt.Beside OrdersBeside) :=
  .bind (.write fun _ => ⟨rfl, rfl, rfl⟩) fun _ => .pure _

theorem setOrderIf_beside (c : Bool) (g : Order → Order) : (setOrderIf c o g).Writes (Stmt.Beside OrdersBeside) :=
  .ite (setOrder_beside g) (.pure _)

theorem recordEvent_beside (now : Time) (toStatus : OrderStatus) (note : String) :
    (recordEvent now o toStatus note).Writes (Stmt.Beside OrdersBeside) :=
  .bind (setOrder_beside _) fun _ => .bind (.write fun _ => ⟨rfl, rfl, rfl⟩) fun _ => .bind flush_writes fun _ => .pure _

theorem audit_beside (now : Time) (actor action : String) (target reason : Option String) :
    (audit now actor action target reason).Writes (Stmt.Beside OrdersBeside) :=
  audit_writes (fun _ _ => ⟨rfl, rfl, rfl⟩) _ _ _ _ _

theorem releaseCouponUse_beside (loaded : Option Coupon) : (releaseCouponUse o loaded).Writes (Stmt.Beside OrdersBeside) := by
  have huncount (code : String) (coupon : Option Coupon) : (uncountUse code coupon).Writes (Stmt.Beside OrdersBeside) := by
    cases coupon with
    | none => exact .pure _
    | some _ => exact .ite (.write fun _ => ⟨rfl, rfl, rfl⟩) (.pure _)
  unfold releaseCouponUse
  split
  · exact .pure _
  refine .bind (.query _) fun redemption => ?_
  cases redemption with
  | none => exact .pure _
  | some _ =>
    refine .bind (.write fun _ => ⟨rfl, rfl, rfl⟩) fun _ => .bind ?_ fun _ => huncount _ _
    cases loaded with
    | none => exact .query _
    | some _ => exact .pure _

theorem redeemCoupon_beside (loaded : Option Coupon) : (redeemCoupon o loaded).Writes (Stmt.Beside OrdersBeside) := by
  unfold redeemCoupon
  split
  · exact .pure _
  refine .bind ?_ fun _ => .write fun _ => ⟨rfl, rfl, rfl⟩
  cases loaded with
  | none => exact .pure _
  | some _ => exact .write fun _ => ⟨rfl, rfl, rfl⟩

/-! ## Placing an order -/

/-- A posting on behalf of an order, under a key of its own. -/
theorem OrderMoney.posting {c : WalletCall} {amount : Int} {reason : String} (hp : c.posting = orderPosting o amount reason)
    (hkey : c.key.orderRef = .some o.publicId) : c.prog.Holds (OrderMoney a) :=
  c.holds (.order (by rw [hp]; rfl) (by rw [hp]; rfl) hkey)

theorem captureCharge_money : (captureCharge o).Holds (OrderMoney a) :=
  .bind (OrderMoney.posting (c := .capture _ _) rfl rfl) fun _ => .pure _

theorem failAndRelease_money {now : Time} {reason tag : String} {loaded : Option Coupon} :
    (failAndRelease now o reason tag loaded).Holds (OrderMoney a) :=
  .bind (OrderMoney.posting (c := .release _ _) rfl rfl) fun _ => holds_of_beside <|
    .bind (setOrder_beside _) fun _ => .bind (releaseCouponUse_beside _) fun _ => recordEvent_beside _ _ _

theorem settleSubmission_money {now : Time} {loaded : Option Coupon} (answer : Except SubmitError String) :
    (settleSubmission now o loaded answer).Holds (OrderMoney a) := by
  cases answer with
  | ok _ =>
    exact .bind (holds_of_beside (setOrder_beside _)) fun _ => .bind captureCharge_money fun _ =>
      holds_of_beside (recordEvent_beside _ _ _)
  | error e =>
    cases e with
    | other => exact failAndRelease_money
    | provider _ =>
      refine .ite (holds_of_beside ?_) failAndRelease_money
      exact .bind (setOrder_beside _) fun _ => .bind (recordEvent_beside _ _ _) fun _ =>
        .bind (audit_beside _ _ _ _ _) fun _ => .pure _

theorem submitOrder_money {now : Time} {service : Service} {loaded : Option Coupon} {submission : Submission} :
    (submitOrder now o service loaded submission).Holds (OrderMoney a) := by
  refine .bind (.query _) fun provider => ?_
  cases provider with
  | none => exact settleSubmission_money _
  | some _ => exact .bind (holds_of_beside (.call _)) fun _ => settleSubmission_money _

theorem bookOrder_money {now : Time} {quoted : Quoted} : (bookOrder now o quoted).Holds (OrderMoney a) := by
  have hresale : (recordResale o quoted).Writes (Stmt.Beside OrdersBeside) := by
    unfold recordResale
    split
    · exact .write fun _ => ⟨rfl, rfl, rfl⟩
    · exact .pure _
  have hplaced : (Txn.Prog.write (Stmt.insertOrder o) : M Unit).Holds (OrderMoney a) :=
    holds_of_beside (.write fun _ => ⟨rfl, rfl, rfl⟩)
  have hrecord (key : Key) (r : Response) : (Txn.Prog.write (Stmt.insertRecord key r) : M Unit).Holds (OrderMoney a) :=
    holds_of_beside (.write fun _ => ⟨rfl, rfl, rfl⟩)
  exact .bind hplaced fun _ => .bind (holds_of_beside flush_writes) fun _ => .bind (hrecord _ _) fun _ =>
    .bind (holds_of_beside hresale) fun _ => .bind (OrderMoney.posting (c := .reserve _ _) rfl rfl) fun _ =>
    holds_of_beside <| .bind (recordEvent_beside _ _ _) fun _ => .bind (redeemCoupon_beside _) fun _ => .pure _

theorem placeOrder_money {now : Time} {publicId : String} {userId : Int} {request : OrderRequest}
    {submission : Submission} : (placeOrder now publicId userId request submission).Holds (OrderMoney a) := by
  have hchecked : (checkRequest now userId request).Holds (OrderMoney a) :=
    holds_of_beside (checkRequest_reads _ _ _).writes
  have hload (key : Key) : (loadIdempotentOrder key).Holds (OrderMoney a) :=
    holds_of_beside (loadIdempotentOrder_writes key)
  refine .bind hchecked fun _ => .bind (.require _ _) fun _ => ?_
  refine .bind (holds_of_beside (lockUser_writes _)) fun _ => .bind (hload _) fun existing => ?_
  split
  · exact .pure _
  · exact .bind (.require _ _) fun _ => .bind bookOrder_money fun _ => submitOrder_money

/-! ## Following the provider -/

theorem creditBack_money {amount : Int} {reason : String} {key : Key} (hkey : key.orderRef = .some o.publicId) :
    (creditBack o amount reason key).Holds (OrderMoney a) := by
  refine .bind (OrderMoney.posting (c := .credit _ (.some key)) rfl ?_) fun _ =>
    holds_of_beside (.write fun _ => ⟨rfl, rfl, rfl⟩)
  rw [WalletCall.key, Key.orElse_of_orderRef hkey]
  exact hkey

theorem refundRest_money {remains : Option Int} : (refundRest o remains).Holds (OrderMoney a) := by
  cases remains with
  | none => exact .pure _
  | some _ =>
    refine .ite (.pure _) (.bind (.query _) fun record => ?_)
    split
    · exact .pure _
    refine .bind (.query _) fun _ => .ite (.pure _) (.bind (.query _) fun user => ?_)
    split
    · exact .pure _
    · exact creditBack_money rfl

theorem refundIfNeeded_money {now : Time} {mapped : OrderStatus} :
    (refundIfNeeded now o mapped).Holds (OrderMoney a) := by
  refine .bind (.query _) fun record => ?_
  split
  · exact .pure _
  refine .bind (.query _) fun user => ?_
  split
  · exact .pure _
  refine .ite (.pure _) (.bind (.query _) fun _ => .ite (.pure _) (.bind (creditBack_money rfl) fun _ => ?_))
  exact .ite (holds_of_beside (recordEvent_beside _ _ _)) (.pure _)

theorem referrerOf_money (buyer : User) : (referrerOf buyer).Holds (OrderMoney a) := holds_of_beside (referrerOf_writes _)

theorem creditOrderCommission_money : (creditOrderCommission o).Holds (OrderMoney a) := by
  have hcommission (referrer : Option User) (amount : Int) (reason id : String) :
      (creditCommission referrer amount reason (.reford id) id).Holds (OrderMoney a) := by
    cases referrer with
    | none => exact .pure _
    | some _ => exact .ite (.pure _) (.bind (WalletCall.holds (.credit _ _) (.commission rfl)) fun _ => .pure _)
  refine .ite (.pure _) (.bind (.query _) fun buyer => ?_)
  split
  · exact .pure _
  · exact .bind (.query _) fun _ => .ite (.pure _) (.bind (referrerOf_money _) fun _ => hcommission _ _ _ _)

theorem applyReport_money {now : Time} {status : ProviderStatus} : (applyReport now o status).Holds (OrderMoney a) := by
  have hstatus (order : Order) (mapped : OrderStatus) (remains : Option Int) :
      (applyStatus now order mapped remains).Holds (OrderMoney a) :=
    .bind (holds_of_beside (recordEvent_beside _ _ _)) fun _ => .ite (.bind refundRest_money fun _ => .pure _)
      (.ite refundIfNeeded_money (.ite (.bind creditOrderCommission_money fun _ => .pure _) (.pure _)))
  have hset (order : Order) (c : Bool) (g : Order → Order) : (setOrderIf c order g).Holds (OrderMoney a) :=
    holds_of_beside (setOrderIf_beside c g)
  exact .bind (hset _ _ _) fun _ => .bind (hset _ _ _) fun _ => .bind (.ite (hstatus _ _ _) (.pure _)) fun _ =>
    .bind (hset _ _ _) fun _ => holds_of_beside (setOrder_beside _)

theorem syncOrder_money {now : Time} {answer : Except ProviderError ProviderStatus} :
    (syncOrder now o answer).Holds (OrderMoney a) := by
  refine .ite (.pure _) (.bind (holds_of_beside (adapterFor_writes _)) fun _ =>
    .bind (holds_of_beside (.call _)) fun _ => ?_)
  cases answer with
  | error _ => exact holds_of_beside (setOrder_beside _)
  | ok _ => exact applyReport_money

/-! ## The other calls -/

theorem requestRefill_beside {now : Time} {publicId : String} {userId : Int} {answer : Except ProviderError String} :
    (requestRefill now publicId userId answer).Writes (Stmt.Beside OrdersBeside) := by
  refine .bind (loadOrder_writes _) fun order => .bind (loadUser_writes _) fun _ => ?_
  refine .bind assertRefillsOpen_reads.writes fun _ => .bind (.require _ _) fun _ => .bind (.require _ _) fun _ => ?_
  refine .bind (.require _ _) fun _ => .bind (.require _ _) fun _ => .bind (adapterFor_writes _) fun _ => ?_
  refine .bind (.call _) fun _ => ?_
  cases answer with
  | error _ => exact .throw _
  | ok _ => exact .bind (setOrder_beside _) fun _ => .bind (recordEvent_beside _ _ _) fun _ => .pure _

theorem requestCancel_money {now : Time} {publicId : String} {userId : Int} {answer : Except ProviderError Unit} :
    (requestCancel now publicId userId answer).Holds (OrderMoney a) := by
  have hprovider (order : Order) : (cancelAtProvider order answer).Writes (Stmt.Beside OrdersBeside) := by
    refine .ite (.bind (adapterFor_writes _) fun _ => .bind (.call _) fun _ => ?_) (.pure _)
    cases answer with
    | error _ => exact .throw _
    | ok _ => exact .pure _
  have hmoney (order : Order) : (cancelMoney order).Holds (OrderMoney a) := by
    refine .bind (.query _) fun user => ?_
    split
    · exact .pure _
    refine .ite (.pure _) (.ite (.bind (OrderMoney.posting (c := .release _ _) rfl rfl) fun _ => .pure _)
      (.bind (.query _) fun _ => .ite (.pure _) ?_))
    exact .bind (OrderMoney.posting (c := .credit _ (.some (.refund _ _))) rfl rfl) fun _ => .pure _
  refine .bind (holds_of_beside (loadOrder_writes _)) fun order => .bind (holds_of_beside (loadUser_writes _)) fun _ => ?_
  refine .bind (.require _ _) fun _ => .bind (.require _ _) fun _ => .bind (.require _ _) fun _ => ?_
  exact .bind (holds_of_beside (hprovider _)) fun _ => .bind (hmoney _) fun _ =>
    .bind (holds_of_beside (recordEvent_beside _ _ _)) fun _ => .pure _

theorem resolveReviewOrder_money {now : Time} {publicId actor : String} {releaseFunds : Bool} {attach : Option String} :
    (resolveReviewOrder now publicId releaseFunds attach actor).Holds (OrderMoney a) := by
  refine .bind (holds_of_beside (loadOrder_writes _)) fun order => .bind (.require _ _) fun _ =>
    .bind (.require _ _) fun _ => .bind (.query _) fun owner => ?_
  split
  · exact .throw _
  · refine .ite (.bind failAndRelease_money fun _ => holds_of_beside (audit_beside _ _ _ _ _)) ?_
    exact .bind (holds_of_beside (setOrder_beside _)) fun _ => .bind captureCharge_money fun _ => holds_of_beside <|
      .bind (setOrder_beside _) fun _ => .bind (recordEvent_beside _ _ _) fun _ => audit_beside _ _ _ _ _

theorem flagStuckOrders_beside {now : Time} {olderThanSeconds : Int} {limit : Nat} :
    (flagStuckOrders now olderThanSeconds limit).Writes (Stmt.Beside OrdersBeside) := by
  have hflag (order : Order) : (flagStuckOrder now order).Writes (Stmt.Beside OrdersBeside) :=
    .bind (setOrder_beside _) fun _ => .bind (recordEvent_beside _ _ _) fun _ => audit_beside _ _ _ _ _
  exact .bind (.query _) fun _ => .forEach hflag _

end

/-- **A call of the order engine** moves money for orders and for the commissions on them only. -/
theorem OrderCall.postings (c : OrderCall) (caught : Err → Bool) (db : Db) :
    Postings WalletCall.OfOrders OrdersBeside db (c.prog.commit caught db) := by
  refine commit_postings (fun a => ?_) caught db
  cases c with
  | place => exact .bind placeOrder_money fun _ => .pure _
  | sync => exact .bind (holds_of_beside (loadOrder_writes _)) fun _ => .bind syncOrder_money fun _ => .pure _
  | refill => exact holds_of_beside requestRefill_beside
  | cancel => exact requestCancel_money
  | resolve => exact resolveReviewOrder_money
  | flagStuck => exact holds_of_beside flagStuckOrders_beside

end Falaron
