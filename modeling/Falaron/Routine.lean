/-
The statements the wallet, the orders and the payments are made of.

None of them touches the catalog, or who a user is and who referred him:
`Stmt.Routine` lists them, and every program here is made of them only.
-/
import Falaron.Payments
import Falaron.Txn.Frame

namespace Falaron

open Txn.Prog hiding pure

/-- A statement of the wallet, the orders or the payments. -/
inductive Stmt.Routine : Stmt → Prop
  | setWallet (userId balance reserved) : Routine (Stmt.setWallet userId balance reserved)
  | insertEntry (e) : Routine (Stmt.insertEntry e)
  | insertOrder (o) : Routine (Stmt.insertOrder o)
  | updateOrder (publicId f) : Routine (Stmt.updateOrder publicId f)
  | insertOrderEvent (e) : Routine (Stmt.insertOrderEvent e)
  | insertRecord (key r) : Routine (Stmt.insertRecord key r)
  | insertResellerOrder (r) : Routine (Stmt.insertResellerOrder r)
  | setUsedCount (code n) : Routine (Stmt.setUsedCount code n)
  | insertRedemption (r) : Routine (Stmt.insertRedemption r)
  | deleteRedemption (r) : Routine (Stmt.deleteRedemption r)
  | insertPayment (p) : Routine (Stmt.insertPayment p)
  | updatePayment (publicId f) : Routine (Stmt.updatePayment publicId f)
  | deletePayment (publicId) : Routine (Stmt.deletePayment publicId)
  | insertPaymentEvent (e) : Routine (Stmt.insertPaymentEvent e)
  | updatePaymentEvent (gateway eventId f) : Routine (Stmt.updatePaymentEvent gateway eventId f)
  | insertAudit (a) : Routine (Stmt.insertAudit a)

/-- The catalog, who the users are and who referred them, as in `a`. -/
structure Db.SameHouse (a b : Db) : Prop where
  catalog : b.catalog = a.catalog
  resellers : b.resellers = a.resellers
  codes : b.referralCodes = a.referralCodes
  people : ∀ u, (b.users u).map (fun r => (r.telegramId, r.referredBy)) =
    (a.users u).map fun r => (r.telegramId, r.referredBy)

namespace Db.SameHouse

variable {a b c : Db}

theorem refl (a : Db) : a.SameHouse a := ⟨rfl, rfl, rfl, fun _ => rfl⟩

theorem trans (h : a.SameHouse b) (h' : b.SameHouse c) : a.SameHouse c :=
  ⟨h'.catalog.trans h.catalog, h'.resellers.trans h.resellers, h'.codes.trans h.codes,
    fun u => (h'.people u).trans (h.people u)⟩

theorem setWallet (h : a.SameHouse b) (userId balance reserved : Int) :
    a.SameHouse (b.setWallet userId balance reserved) := by
  refine ⟨h.catalog, h.resellers, h.codes, fun u => ?_⟩
  rw [← h.people u]
  simp only [Db.setWallet]
  split
  · cases b.users u <;> rfl
  · rfl

theorem posted (h : a.SameHouse b) (e : LedgerEntry) : a.SameHouse (b.posted e) :=
  have hw := h.setWallet e.userId e.balanceAfterPaise e.reservedAfterPaise
  ⟨hw.catalog, hw.resellers, hw.codes, hw.people⟩

/-- A user who is there is there in the other database too. -/
theorem user (h : a.SameHouse b) {u : Int} {row : User} (hu : a.users u = .some row) :
    ∃ row', b.users u = .some row' ∧ row'.telegramId = row.telegramId ∧ row'.referredBy = row.referredBy := by
  have hp := h.people u
  rw [hu] at hp
  obtain ⟨row', hrow, heq⟩ := Option.map_eq_some_iff.mp hp
  exact ⟨row', hrow, (Prod.mk.inj heq).1, (Prod.mk.inj heq).2⟩

theorem symm (h : a.SameHouse b) : b.SameHouse a :=
  ⟨h.catalog.symm, h.resellers.symm, h.codes.symm, fun u => (h.people u).symm⟩

end Db.SameHouse

/-- Every user is found under his own id. -/
def Db.Keyed (db : Db) : Prop := ∀ u row, db.users u = .some row → row.telegramId = u

theorem Db.Keyed.sameHouse {db db' : Db} (h : db.Keyed) (hs : db.SameHouse db') : db'.Keyed := by
  intro u row hu
  obtain ⟨row', hu', htid, -⟩ := hs.symm.user hu
  exact htid.symm.trans (h u row' hu')

theorem Stmt.Routine.keeps {w : Stmt} (h : Stmt.Routine w) (a : Db) : w.Keeps a.SameHouse := by
  intro b hb
  cases h with
  | setWallet userId balance reserved => exact hb.setWallet userId balance reserved
  | _ => exact ⟨hb.catalog, hb.resellers, hb.codes, hb.people⟩

/-! ## The wallet -/

section

variable {p : Posting} {entryType : EntryType} {refusal : String} {key : Key} {draft : User → Except Err Draft}

theorem flush_writes {P : Stmt → Prop} : (flush : M Unit).Writes P := .flushed _

variable {P : Stmt → Prop}

theorem audit_writes (h : ∀ a, P (Stmt.insertAudit a)) (now : Time) (actor action : String)
    (target reason : Option String) : (audit now actor action target reason).Writes P :=
  .bind (.write (h _)) fun _ => flush_writes

theorem lockUser_writes (userId : Int) : (lockUser userId).Writes P := by
  refine .bind flush_writes fun _ => .bind (.lockRow _ _) fun user => ?_
  cases user with
  | some _ => exact .pure _
  | none => exact .throw _

/-- A posting writes a wallet and an entry. -/
theorem post_writes (hwallet : ∀ balance reserved, P (Stmt.setWallet p.userId balance reserved))
    (hentry : ∀ d, P (Stmt.insertEntry (p.entry entryType key d))) :
    (post p entryType refusal key draft).Writes P := by
  have happend (d : Draft) : (append p entryType key d).Writes P :=
    .bind (.require _ _) fun _ => .bind (.require _ _) fun _ => .bind (.write (hwallet _ _)) fun _ =>
      .bind (.write (hentry d)) fun _ => .bind flush_writes fun _ => .pure _
  refine .bind (.require _ _) fun _ => .bind (lockUser_writes _) fun user => .bind (.query _) fun entry => ?_
  cases entry with
  | some _ => exact .pure _
  | none =>
    simp only
    cases draft user with
    | error _ => exact .throw _
    | ok d => exact happend d

theorem audit_routine (now : Time) (actor action : String) (target reason : Option String) :
    (audit now actor action target reason).Writes Stmt.Routine := audit_writes .insertAudit _ _ _ _ _

end

/-! ## Referrals -/

theorem referrerOf_writes {P : Stmt → Prop} (buyer : User) : (referrerOf buyer).Writes P := by
  unfold referrerOf
  cases buyer.referredBy with
  | none => exact .pure _
  | some _ => exact .bind (.query _) fun _ => .pure _

/-- A commission writes a wallet and an entry under its key. -/
theorem creditCommission_writes {P : Stmt → Prop} {key : Key} (hkey : ∀ d, Key.orElse (.some key) d = key)
    (hwallet : ∀ u balance reserved, P (Stmt.setWallet u balance reserved))
    (hentry : ∀ e, e.idempotencyKey = key → e.referenceType = .some "referral" → P (Stmt.insertEntry e))
    (referrer : Option User) (amount : Int)
    (reason referenceId : String) : (creditCommission referrer amount reason key referenceId).Writes P := by
  unfold creditCommission
  cases referrer with
  | none => exact .pure _
  | some _ =>
    exact .ite (.pure _) (.bind (post_writes (hwallet _) fun _ => hentry _ (hkey _) rfl) fun _ => .pure _)

/-- The commission on a deposit writes a wallet and an entry about a referral. -/
theorem creditDepositCommission_writes {P : Stmt → Prop}
    (hwallet : ∀ u balance reserved, P (Stmt.setWallet u balance reserved))
    (hentry : ∀ e u, e.idempotencyKey = .refdep u → e.referenceType = .some "referral" → P (Stmt.insertEntry e))
    (buyer : User) (payment : Payment) : (creditDepositCommission buyer payment).Writes P :=
  .ite (.pure _) (.bind (.query _) fun _ => .ite (.pure _) (.bind (referrerOf_writes _) fun _ =>
    creditCommission_writes (fun _ => rfl) hwallet (fun e => hentry e _) _ _ _ _))

theorem userByReferralCode_writes {P : Stmt → Prop} (code : String) : (userByReferralCode code).Writes P := by
  unfold userByReferralCode
  dsimp only
  generalize Text.upper (Text.strip code) = normalized
  split
  · exact .pure _
  · exact .query _

/-- An attribution writes who referred the visitor, if nobody has yet, and a click. -/
theorem recordStartHit_writes {P : Stmt → Prop} {visitor : User}
    (hreferrer : visitor.referredBy = .none → ∀ r, P (Stmt.setReferredBy visitor.telegramId r))
    (hclick : ∀ c, P (Stmt.insertReferralClick c)) (now : Time) (code : String) :
    (recordStartHit now code visitor).Writes P := by
  unfold recordStartHit
  dsimp only
  generalize Text.upper (Text.strip code) = normalized
  split
  · exact .pure _
  refine .bind (userByReferralCode_writes _) fun referrer => ?_
  split
  · exact .pure _
  refine .bind ?_ fun _ => .bind (.write (hclick _)) fun _ => .bind flush_writes fun _ => .pure _
  cases referrer with
  | none => exact .pure _
  | some _ =>
    simp only [setReferrer]
    split
    · next hnone => exact .write (hreferrer (Option.isNone_iff_eq_none.mp hnone) _)
    · exact .pure _

/-! ## Payments -/

/-- `P` holds of each kind of statement that settles the payment. -/
structure SettleStmts (P : Stmt → Prop) (p : Payment) : Prop where
  wallet : ∀ u balance reserved, P (Stmt.setWallet u balance reserved)
  deposit : ∀ d, P (Stmt.insertEntry (p.deposit.entry .credit (.deposit p.publicId) d))
  commission : ∀ e u, e.idempotencyKey = .refdep u → e.referenceType = .some "referral" → P (Stmt.insertEntry e)
  row : ∀ q, P (Stmt.updatePayment p.publicId (p.flushed q))
  audit : ∀ a, P (Stmt.insertAudit a)

theorem SettleStmts.routine (p : Payment) : SettleStmts Stmt.Routine p :=
  ⟨.setWallet, fun _ => .insertEntry _, fun e _ _ _ => .insertEntry e, fun _ => .updatePayment _ _, .insertAudit⟩

section

variable {P : Stmt → Prop} {p : Payment}

theorem setPayment_writes {f : Payment → Payment} (h : P (Stmt.updatePayment p.publicId (p.flushed (f p)))) :
    (setPayment p f).Writes P := .bind (.write h) fun _ => .pure _

/-- The payment that is settled has the id it is locked under, or is the copy. -/
theorem lockPayment_bind_writes {α : Type} {loaded : Option Payment} {publicId : String} {f : Option Payment → M α}
    (hnone : (f .none).Writes P) (h : ∀ row, row.publicId = publicId → (f (.some (loaded.getD row))).Writes P) :
    (lockPayment loaded publicId >>= f).Writes P := by
  refine ⟨fun db => ?_⟩
  show (f ((db.findPayment publicId).map fun row => loaded.getD row)).allStmts P
  cases hrow : db.findPayment publicId with
  | none => exact hnone.stmts
  | some row => exact (h row (by simpa using List.find?_some hrow)).stmts

theorem creditDeposit_writes (h : SettleStmts P p) (now : Time) (r : Report) : (creditDeposit now p r).Writes P := by
  refine .bind (.query _) fun user => ?_
  cases user with
  | none => exact .bind (setPayment_writes (h.row _)) fun _ => .pure _
  | some _ =>
    exact .bind (post_writes (h.wallet _) h.deposit) fun _ => .bind (setPayment_writes (h.row _)) fun _ =>
      .bind (creditDepositCommission_writes h.wallet h.commission _ _) fun _ =>
        .bind (audit_writes h.audit _ _ _ _ _) fun _ => .pure _

theorem settleLocked_writes (h : SettleStmts P p) (now : Time) (r : Report) : (settleLocked now p r).Writes P :=
  .ite (.pure _) (.ite (.pure _) (.ite (.pure _) (.ite
    (.bind (setPayment_writes (h.row _)) fun _ => .bind (audit_writes h.audit _ _ _ _ _) fun _ => .pure _)
    (creditDeposit_writes h now r))))

theorem settlePayment_writes {loaded : Option Payment} {r : Report}
    (h : ∀ row, row.publicId = r.publicId → SettleStmts P (loaded.getD row)) (now : Time) :
    (settlePayment now loaded r).Writes P :=
  lockPayment_bind_writes (.pure _) fun row hrow => .bind (settleLocked_writes (h row hrow) now r) fun _ => .pure _

theorem expireEvent_writes {publicId : String}
    (h : ∀ p q : Payment, p.publicId = publicId → P (Stmt.updatePayment p.publicId (p.flushed q))) :
    (expireEvent publicId).Writes P :=
  lockPayment_bind_writes (.pure _) fun row hrow => .ite (.bind (setPayment_writes (h row _ hrow)) fun _ => .pure _)
    (.pure _)

theorem applyAnswer_writes (h : SettleStmts P p) (now : Time) (gateway source : String)
    (answer : Except String GatewayStatus) : (applyAnswer now gateway source p answer).Writes P := by
  unfold applyAnswer
  split
  · exact .pure _
  split
  · exact .bind (settlePayment_writes (fun _ _ => h) now) fun _ => .pure _
  · exact .ite (.bind (setPayment_writes (h.row _)) fun _ => .pure _) (.pure _)
  · exact .pure _

theorem askGateway_writes (h : SettleStmts P p) (now : Time) (gateway source : String)
    (answer : Except String GatewayStatus) : (askGateway now gateway source p answer).Writes P :=
  .bind (.call _) fun _ => applyAnswer_writes h now gateway source answer

theorem reconcilePayment_writes (h : SettleStmts P p) (now : Time) (pass : Pass) : (reconcilePayment now pass p).Writes P :=
  .bind (askGateway_writes h now _ _ _) fun _ => .pure _

end

theorem applyEvent_routine (now : Time) (gateway : String) (event : GatewayEvent) :
    (applyEvent now gateway event).Writes Stmt.Routine :=
  .ite (.bind (settlePayment_writes (fun _ _ => .routine _) now) fun _ => .pure _)
    (.ite (expireEvent_writes fun _ _ _ => .updatePayment _ _) (.ite (.bind (audit_routine _ _ _ _ _) fun _ => .pure _) (.pure _)))

theorem handleWebhookEvent_routine (now : Time) (gateway : String) (event : GatewayEvent) :
    (handleWebhookEvent now gateway event).Writes Stmt.Routine :=
  .bind (.savepoint (.insertPaymentEvent _)) fun _ => .ite (.pure _) (.bind (applyEvent_routine _ _ _) fun _ =>
    .bind (.write (.updatePaymentEvent _ _ _)) fun _ => .pure _)

theorem reconcilePending_routine (now : Time) (pass : Pass) : (reconcilePending now pass).Writes Stmt.Routine :=
  .bind (.query _) fun _ => .collect (fun p => reconcilePayment_writes (.routine p) now pass) _

theorem manualConfirm_routine (now : Time) (publicId actor : String) :
    (manualConfirm now publicId actor).Writes Stmt.Routine := by
  refine .bind (.query _) fun p => ?_
  cases p with
  | none => exact .pure _
  | some p => exact .bind (settlePayment_writes (fun _ _ => .routine _) now) fun _ => .pure _

theorem killSwitches_writes {P : Stmt → Prop} : killSwitches.Writes P :=
  .bind (.query _) fun _ => .bind (.query _) fun _ => .bind (.query _) fun _ => .bind (.query _) fun _ =>
    .bind (.query _) fun _ => .pure _

theorem gatewayOr_writes {P : Stmt → Prop} (gateway : Option String) (settings : Settings) :
    (gatewayOr gateway settings).Writes P := by
  unfold gatewayOr
  cases gateway with
  | some _ => exact .pure _
  | none => exact .ite (.pure _) (.bind (.require _ _) fun _ => .pure _)

theorem checkPayment_routine (now : Time) (publicId : String) (userId : Int) (settings : Settings)
    (gateway : Option String) (answer : Except String GatewayStatus) :
    (checkPayment now publicId userId settings gateway answer).Writes Stmt.Routine := by
  refine .bind (.query _) fun p => ?_
  split
  · exact .pure _
  · refine .ite (.bind (gatewayOr_writes _ _) fun name => ?_) (.pure _)
    cases name with
    | none => exact .pure _
    | some _ => exact .bind (askGateway_writes (.routine _) now _ _ _) fun _ => .pure _

theorem mockPay_routine (now : Time) (publicId : String) (userId : Int) (settings : Settings) :
    (mockPay now publicId userId settings).Writes Stmt.Routine := by
  refine .bind (.require _ _) fun _ => .bind (.query _) fun p => ?_
  split
  · exact .throw _
  · exact .bind (settlePayment_writes (fun _ _ => .routine _) now) fun _ => .pure _

/-- Creating an invoice writes rows of payments only. -/
theorem createDeposit_writes {P : Stmt → Prop} (hinsert : ∀ p, P (Stmt.insertPayment p))
    (hupdate : ∀ publicId f, P (Stmt.updatePayment publicId f)) (hdelete : ∀ publicId, P (Stmt.deletePayment publicId))
    (now : Time) (publicId : String) (user : User) (amountPaise : Int) (settings : Settings)
    (idempotencyKey gateway : Option String) (checkout : Except String Checkout) :
    (createDeposit now publicId user amountPaise settings idempotencyKey gateway checkout).Writes P := by
  have hopen (p : Payment) : (openCheckout settings gateway p checkout).Writes P := by
    refine .bind (gatewayOr_writes _ _) fun name => ?_
    cases name with
    | none => exact .throw _
    | some _ =>
      refine .bind (.call _) fun _ => ?_
      cases checkout with
      | error _ => exact .bind (.write (hdelete _)) fun _ => .bind (.flushed _) fun _ => .throw _
      | ok _ => exact .bind (.bind (.write (hupdate _ _)) fun _ => .pure _) fun _ => .bind (.flushed _) fun _ => .pure _
  refine .bind (.require _ _) fun _ => .bind (.require _ _) fun _ => ?_
  refine .bind (.bind killSwitches_writes fun _ => .require _ _) fun _ => .bind (.require _ _) fun _ => ?_
  refine .bind (.query _) fun existing => ?_
  split
  · exact .pure _
  · exact .bind (.write (hinsert _)) fun _ => .bind (.flushed _) fun _ => .ite (hopen _) (.pure _)

end Falaron
