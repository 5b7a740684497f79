/-
The money the payment service moves.

Each posting of a call is the credit of a deposit, under the key of its
invoice, or the commission on it. Users, orders and the records of the order
engine are left alone.
-/
import Falaron.DepositCommission
import Falaron.Postings

namespace Falaron

open Txn.Prog hiding pure

/-- The calls of the wallet the payment service makes. -/
inductive WalletCall.OfPayments : WalletCall → Prop
  | deposit (p : Payment) : OfPayments (.credit p.deposit (.some (.deposit p.publicId)))
  | commission {p : Posting} {u : Int} : p.referenceType = .some "referral" →
      OfPayments (.credit p (.some (.refdep u)))

/-- Wallets, ledger and orders are the same. -/
structure PaymentsBeside (a b : Db) : Prop where
  ledger : b.ledger = a.ledger
  users : b.users = a.users
  orders : b.orders = a.orders
  records : b.records = a.records

section

variable {a : Db} {p : Payment}

abbrev PaymentMoney (a : Db) : Session → Prop := Session.Posting WalletCall.OfPayments PaymentsBeside a

theorem setPayment_beside (f : Payment → Payment) : (setPayment p f).Writes (Stmt.Beside PaymentsBeside) :=
  setPayment_writes fun _ => ⟨rfl, rfl, rfl, rfl⟩

theorem audit_beside_payments (now : Time) (actor action : String) (target reason : Option String) :
    (audit now actor action target reason).Writes (Stmt.Beside PaymentsBeside) :=
  audit_writes (fun _ _ => ⟨rfl, rfl, rfl, rfl⟩) _ _ _ _ _

/-! ## Settling -/

theorem creditDepositCommission_money (buyer : User) : (creditDepositCommission buyer p).Holds (PaymentMoney a) := by
  have hcommission (referrer : Option User) (amount : Int) (reason id : String) (u : Int) :
      (creditCommission referrer amount reason (.refdep u) id).Holds (PaymentMoney a) := by
    cases referrer with
    | none => exact .pure _
    | some _ => exact .ite (.pure _) (.bind (WalletCall.holds (.credit _ _) (.commission rfl)) fun _ => .pure _)
  exact .ite (.pure _) (.bind (.query _) fun _ => .ite (.pure _)
    (.bind (holds_of_beside (referrerOf_writes _)) fun _ => hcommission _ _ _ _ _))

theorem creditDeposit_money (now : Time) (r : Report) : (creditDeposit now p r).Holds (PaymentMoney a) := by
  refine .bind (.query _) fun user => ?_
  cases user with
  | none => exact holds_of_beside (.bind (setPayment_beside _) fun _ => .pure _)
  | some _ =>
    exact .bind (WalletCall.holds (.credit _ _) (.deposit p)) fun _ => .bind (holds_of_beside (setPayment_beside _))
      fun _ => .bind (creditDepositCommission_money _) fun _ => holds_of_beside <|
      .bind (audit_beside_payments _ _ _ _ _) fun _ => .pure _

theorem settlePayment_money (now : Time) (loaded : Option Payment) (r : Report) :
    (settlePayment now loaded r).Holds (PaymentMoney a) := by
  have hheld (p : Payment) : (holdForReview now p r).Writes (Stmt.Beside PaymentsBeside) :=
    .bind (setPayment_beside _) fun _ => .bind (audit_beside_payments _ _ _ _ _) fun _ => .pure _
  refine .bind (.lockRow _ _) fun p => ?_
  cases p with
  | none => exact .pure _
  | some p =>
    refine .bind (.ite (.pure _) (.ite (.pure _) (.ite (.pure _) (.ite ?_ (creditDeposit_money now r))))) fun _ => .pure _
    exact holds_of_beside (hheld p)

/-! ## The calls -/

theorem applyAnswer_money (now : Time) (gateway source : String) (answer : Except String GatewayStatus) :
    (applyAnswer now gateway source p answer).Holds (PaymentMoney a) := by
  unfold applyAnswer
  split
  · exact .pure _
  split
  · exact .bind (settlePayment_money now _ _) fun _ => .pure _
  · exact .ite (.bind (holds_of_beside (setPayment_beside _)) fun _ => .pure _) (.pure _)
  · exact .pure _

theorem askGateway_money (now : Time) (gateway source : String) (answer : Except String GatewayStatus) :
    (askGateway now gateway source p answer).Holds (PaymentMoney a) :=
  .bind (holds_of_beside (.call _)) fun _ => applyAnswer_money now gateway source answer

theorem handleWebhookEvent_money (now : Time) (gateway : String) (event : GatewayEvent) :
    (handleWebhookEvent now gateway event).Holds (PaymentMoney a) := by
  have happly : (applyEvent now gateway event).Holds (PaymentMoney a) := by
    refine .ite (.bind (settlePayment_money now _ _) fun _ => .pure _) (holds_of_beside (.ite ?_ (.ite ?_ (.pure _))))
    · exact expireEvent_writes fun _ _ _ _ => ⟨rfl, rfl, rfl, rfl⟩
    · exact .bind (audit_beside_payments _ _ _ _ _) fun _ => .pure _
  refine .bind (holds_of_beside (.savepoint fun _ => ⟨rfl, rfl, rfl, rfl⟩)) fun _ => .ite (.pure _) (.bind happly fun _ => ?_)
  exact holds_of_beside (.bind (.write fun _ => ⟨rfl, rfl, rfl, rfl⟩) fun _ => .pure _)

theorem reconcilePending_money (now : Time) (pass : Pass) : (reconcilePending now pass).Holds (PaymentMoney a) :=
  .bind (.query _) fun _ => .collect (fun _ => .bind (askGateway_money now _ _ _) fun _ => .pure _) _

theorem checkPayment_money (now : Time) (publicId : String) (userId : Int) (settings : Settings)
    (gateway : Option String) (answer : Except String GatewayStatus) :
    (checkPayment now publicId userId settings gateway answer).Holds (PaymentMoney a) := by
  refine .bind (.query _) fun p => ?_
  split
  · exact .pure _
  · refine .ite (.bind (holds_of_beside (gatewayOr_writes _ _)) fun name => ?_) (.pure _)
    cases name with
    | none => exact .pure _
    | some _ => exact .bind (askGateway_money now _ _ _) fun _ => .pure _

theorem manualConfirm_money (now : Time) (publicId actor : String) :
    (manualConfirm now publicId actor).Holds (PaymentMoney a) := by
  refine .bind (.query _) fun p => ?_
  cases p with
  | none => exact .pure _
  | some _ => exact .bind (settlePayment_money now _ _) fun _ => .pure _

theorem mockPay_money (now : Time) (publicId : String) (userId : Int) (settings : Settings) :
    (mockPay now publicId userId settings).Holds (PaymentMoney a) := by
  refine .bind (.require _ _) fun _ => .bind (.query _) fun p => ?_
  split
  · exact .throw _
  · exact .bind (settlePayment_money now _ _) fun _ => .pure _

end

/-- **A call of the payment service** moves money for deposits and for the commissions on them only. -/
theorem PaymentCall.postings (c : PaymentCall) (caught : Err → Bool) (db : Db) :
    Postings WalletCall.OfPayments PaymentsBeside db (c.prog.commit caught db) := by
  refine commit_postings (fun a => ?_) caught db
  cases c with
  | create now publicId user amountPaise settings idempotencyKey gateway checkout =>
    refine holds_of_beside (.bind (createDeposit_writes ?_ ?_ ?_ _ _ _ _ _ _ _ _) fun _ => .pure _)
    · exact fun _ _ => ⟨rfl, rfl, rfl, rfl⟩
    · exact fun _ _ _ => ⟨rfl, rfl, rfl, rfl⟩
    · exact fun _ _ => ⟨rfl, rfl, rfl, rfl⟩
  | webhook => exact .bind (handleWebhookEvent_money _ _ _) fun _ => .pure _
  | reconcile => exact .bind (reconcilePending_money _ _) fun _ => .pure _
  | check => exact .bind (checkPayment_money _ _ _ _ _ _) fun _ => .pure _
  | confirm => exact .bind (manualConfirm_money _ _ _) fun _ => .pure _
  | mockPay => exact .bind (mockPay_money _ _ _ _) fun _ => .pure _

end Falaron
