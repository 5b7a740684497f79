/-
Whether an order that is accepted fits the columns it is stored in.

An order costs no more than what it is charged, and is charged no more than
its owner has, so what goes into `orders` and the ledger fits. A reseller's
record keeps its two amounts in columns of type INTEGER, though: an active
reseller's order is refused by the database once its retail price reaches
2^31 paise (`order_stored_iff`).
-/
import Falaron.OrderWrites
import Falaron.Replay
import Falaron.SyncBatch

namespace Falaron

open Txn.Prog hiding pure
open Text (Extra)

/-! ## Columns -/

/-- A value of a column of type BIGINT. -/
def inBigInteger (n : Int) : Bool := -9223372036854775808 ≤ n && n ≤ 9223372036854775807

def Order.inColumns (o : Order) : Bool :=
  o.integers.all inInteger && [o.userId, o.chargePaise, o.costPaise].all inBigInteger

def ResellerOrder.inColumns (r : ResellerOrder) : Bool :=
  inBigInteger r.resellerId && [r.chargePaise, r.retailPaise].all inInteger

def LedgerEntry.inColumns (e : LedgerEntry) : Bool :=
  [e.userId, e.amountPaise, e.balanceAfterPaise, e.reservedAfterPaise].all inBigInteger

/-- Every row of the three tables fits its columns. -/
def Db.inColumns (db : Db) : Bool :=
  db.orders.all (·.inColumns) && db.resellerOrders.all (·.inColumns) && db.ledger.all (·.inColumns)

theorem inInteger_iff {n : Int} : inInteger n = true ↔ -2147483648 ≤ n ∧ n ≤ 2147483647 := by simp [inInteger]

theorem inBigInteger_iff {n : Int} :
    inBigInteger n = true ↔ -9223372036854775808 ≤ n ∧ n ≤ 9223372036854775807 := by simp [inBigInteger]

/-- The rows fit, and so do the wallets, whose reserves they cover. -/
structure Db.Banked (db : Db) : Prop where
  rows : db.inColumns = true
  wallets : ∀ u user, db.users u = .some user → inBigInteger u = true ∧ inBigInteger user.cachedBalancePaise = true ∧
    0 ≤ user.cachedReservedPaise ∧ user.cachedReservedPaise ≤ user.cachedBalancePaise

abbrev KeepsBanked (w : Stmt) : Prop := w.Keeps Db.Banked

section

variable {o : Order} {r : ResellerOrder} {e : LedgerEntry}

theorem Db.inColumns_iff {db : Db} : db.inColumns = true ↔ (∀ o ∈ db.orders, o.inColumns = true) ∧
    (∀ r ∈ db.resellerOrders, r.inColumns = true) ∧ ∀ e ∈ db.ledger, e.inColumns = true := by
  simp only [Db.inColumns, Bool.and_eq_true, List.all_eq_true, and_assoc]

theorem insertOrder_keepsBanked (h : o.inColumns = true) : KeepsBanked (Stmt.insertOrder o) := by
  refine fun db hdb => ⟨?_, hdb.wallets⟩
  obtain ⟨horders, hresold, hledger⟩ := Db.inColumns_iff.mp hdb.rows
  refine Db.inColumns_iff.mpr ⟨fun o' ho' => ?_, hresold, hledger⟩
  rcases List.mem_append.mp ho' with ho' | ho'
  · exact horders o' ho'
  · exact List.mem_singleton.mp ho' ▸ h

theorem insertResellerOrder_keepsBanked (h : r.inColumns = true) : KeepsBanked (Stmt.insertResellerOrder r) := by
  refine fun db hdb => ⟨?_, hdb.wallets⟩
  obtain ⟨horders, hresold, hledger⟩ := Db.inColumns_iff.mp hdb.rows
  refine Db.inColumns_iff.mpr ⟨horders, fun r' hr' => ?_, hledger⟩
  rcases List.mem_append.mp hr' with hr' | hr'
  · exact hresold r' hr'
  · exact List.mem_singleton.mp hr' ▸ h

theorem insertEntry_keepsBanked (h : e.inColumns = true) : KeepsBanked (Stmt.insertEntry e) := by
  refine fun db hdb => ⟨?_, hdb.wallets⟩
  obtain ⟨horders, hresold, hledger⟩ := Db.inColumns_iff.mp hdb.rows
  refine Db.inColumns_iff.mpr ⟨horders, hresold, fun e' he' => ?_⟩
  rcases List.mem_append.mp he' with he' | he'
  · exact hledger e' he'
  · exact List.mem_singleton.mp he' ▸ h

theorem setWallet_keepsBanked {u balance reserved : Int} (hfits : inBigInteger balance = true)
    (hcovered : 0 ≤ reserved ∧ reserved ≤ balance) : KeepsBanked (Stmt.setWallet u balance reserved) := by
  refine fun db hdb => ⟨hdb.rows, fun u' user' hu' => ?_⟩
  simp only [Stmt.setWallet, Db.setWallet] at hu'
  split at hu'
  · next heq =>
    obtain ⟨user, hu, rfl⟩ := Option.map_eq_some_iff.mp hu'
    exact ⟨(hdb.wallets _ user hu).1, hfits, hcovered⟩
  · exact hdb.wallets u' user' hu'

/-- A change of a row that has no part in its numbers. -/
def KeepsColumns (g : Order → Order) : Prop := ∀ o, (g o).inColumns = o.inColumns

theorem updateOrder_keepsBanked {p : String} {g : Order → Order} (hg : KeepsColumns g) :
    KeepsBanked (Stmt.updateOrder p g) := by
  refine fun db hdb => ⟨?_, hdb.wallets⟩
  obtain ⟨horders, hresold, hledger⟩ := Db.inColumns_iff.mp hdb.rows
  refine Db.inColumns_iff.mpr ⟨fun o' ho' => ?_, hresold, hledger⟩
  obtain ⟨o, ho, rfl⟩ := List.mem_map.mp ho'
  split
  · rw [hg]
    exact horders o ho
  · exact horders o ho

/-- A statement on other tables. -/
theorem keepsBanked_of_rest {w : Stmt} (hw : ∀ db, (w.apply db).users = db.users ∧ (w.apply db).orders = db.orders ∧
    (w.apply db).resellerOrders = db.resellerOrders ∧ (w.apply db).ledger = db.ledger) : KeepsBanked w := by
  intro db hdb
  obtain ⟨husers, horders, hresold, hledger⟩ := hw db
  refine ⟨?_, ?_⟩
  · rw [Db.inColumns, horders, hresold, hledger]
    exact hdb.rows
  · rw [husers]
    exact hdb.wallets

end

/-! ## What is written fits -/

section

variable {o : Order} {α : Type}

abbrev FitsColumns (p : M α) : Prop := p.WritesOn Db.Banked KeepsBanked

theorem lockUser_fits {userId : Int} {f : User → M α}
    (hf : ∀ (db : Db) user, db.Banked → db.users userId = .some user → FitsColumns (f user)) :
    FitsColumns (lockUser userId >>= f) := by
  refine ⟨fun db hdb => ?_⟩
  dsimp only
  cases hu : db.users userId with
  | none => exact trivial
  | some user => exact (hf db user hdb hu).stmts

/-- A posting that takes nothing in. -/
theorem post_fits {p : Posting} {t : EntryType} {refusal : String} {key : Key} {draft : User → Except Err Draft}
    (hdraft : ∀ user d, draft user = .ok d → inBigInteger d.amountPaise = true ∧ d.newBalance ≤ user.cachedBalancePaise) :
    FitsColumns (post p t refusal key draft) := by
  refine .require fun _ => lockUser_fits fun db user hdb hu => .query fun _ _ => ?_
  split
  · exact ⟨trivial⟩
  split
  · exact ⟨trivial⟩
  next d hd =>
  obtain ⟨hamount, hle⟩ := hdraft user d hd
  obtain ⟨hid, hbalance, -, -⟩ := hdb.wallets _ user hu
  refine .require fun hnonneg => .require fun hcovered => ?_
  simp only [Bool.and_eq_true, decide_eq_true_eq] at hnonneg hcovered
  have hfits : inBigInteger d.newBalance = true := by
    rw [inBigInteger_iff] at hbalance ⊢
    omega
  have hentry : (p.entry t key d).inColumns = true := by
    have hreserved : inBigInteger d.newReserved = true := by
      rw [inBigInteger_iff] at hfits ⊢
      omega
    simp [LedgerEntry.inColumns, Posting.entry, hid, hamount, hfits, hreserved]
  exact ⟨setWallet_keepsBanked hfits ⟨hnonneg.2, hcovered⟩, insertEntry_keepsBanked hentry, trivial⟩

theorem reserve_fits {n : Int} {reason : String} {key : Key} : FitsColumns (reserve (orderPosting o n reason) key) := by
  refine post_fits fun user d hd => ?_
  simp only [reserveDraft] at hd
  split at hd <;> cases hd
  exact ⟨rfl, le_refl _⟩

theorem release_fits {n : Int} {reason : String} {key : Key} : FitsColumns (release (orderPosting o n reason) key) := by
  refine post_fits fun user d hd => ?_
  rw [releaseDraft_eq] at hd
  cases hd
  exact ⟨rfl, le_refl _⟩

theorem captureCharge_fits (hc : 0 < o.chargePaise) (hbig : inBigInteger o.chargePaise = true) :
    FitsColumns (captureCharge o) := by
  refine .bind (post_fits fun user d hd => ?_) fun _ => ⟨trivial⟩
  have hd : captureDraft o.chargePaise user = .ok d := hd
  by_cases hlt : user.cachedReservedPaise < o.chargePaise
  · rw [captureDraft_over hlt] at hd
    cases hd
  · rw [captureDraft_eq hlt] at hd
    cases hd
    have hamount : inBigInteger (-o.chargePaise) = true := by
      rw [inBigInteger_iff] at hbig ⊢
      omega
    exact ⟨hamount, Int.sub_le_self _ (Int.le_of_lt hc)⟩

theorem setOrder_fits {g : Order → Order} {f : Order → M α} (hg : KeepsColumns g) (hf : FitsColumns (f (g o))) :
    FitsColumns (setOrder o g >>= f) := ⟨updateOrder_keepsBanked hg, hf.stmts⟩

theorem recordEvent_fits {now : Time} {toStatus : OrderStatus} {note : String} :
    FitsColumns (recordEvent now o toStatus note) :=
  setOrder_fits (fun _ => rfl) ⟨keepsBanked_of_rest fun _ => ⟨rfl, rfl, rfl, rfl⟩, trivial⟩

theorem recordEvent_results {now : Time} {toStatus : OrderStatus} {note : String} :
    (recordEvent now o toStatus note).allResults fun o' =>
      o'.chargePaise = o.chargePaise ∧ o'.userId = o.userId ∧ o'.publicId = o.publicId := ⟨rfl, rfl, rfl⟩

theorem uncountUse_fits {code : String} {coupon : Option Coupon} : FitsColumns (uncountUse code coupon) := by
  cases coupon with
  | none => exact ⟨trivial⟩
  | some coupon =>
    simp only [uncountUse]
    split
    · exact ⟨keepsBanked_of_rest fun _ => ⟨rfl, rfl, rfl, rfl⟩, trivial⟩
    · exact ⟨trivial⟩

theorem releaseCouponUse_fits {loaded : Option Coupon} : FitsColumns (releaseCouponUse o loaded) := by
  unfold releaseCouponUse
  split
  · exact ⟨trivial⟩
  refine .query fun _ _ => ?_
  split
  · exact ⟨trivial⟩
  · refine .bind ⟨keepsBanked_of_rest fun _ => ⟨rfl, rfl, rfl, rfl⟩, trivial⟩ fun _ => ?_
    cases loaded with
    | none => exact .query fun _ _ => uncountUse_fits
    | some coupon => exact .bind ⟨trivial⟩ fun _ => uncountUse_fits

theorem failAndRelease_fits {now : Time} {reason tag : String} {loaded : Option Coupon} :
    FitsColumns (failAndRelease now o reason tag loaded) :=
  .bind release_fits fun _ => setOrder_fits (fun _ => rfl) (.bind releaseCouponUse_fits fun _ => recordEvent_fits)

theorem settleSubmission_fits {now : Time} {loaded : Option Coupon} (answer : Except SubmitError String)
    (hc : 0 < o.chargePaise) (hbig : inBigInteger o.chargePaise = true) :
    FitsColumns (settleSubmission now o loaded answer) := by
  cases answer with
  | ok externalId =>
    exact setOrder_fits (fun _ => rfl) (.bind (captureCharge_fits hc hbig) fun _ => recordEvent_fits)
  | error e =>
    cases e with
    | other => exact failAndRelease_fits
    | provider e =>
      simp only [settleSubmission]
      split
      · exact setOrder_fits (fun _ => rfl) (.bind recordEvent_fits fun _ =>
          .bind (audit_writes (fun _ => keepsBanked_of_rest fun _ => ⟨rfl, rfl, rfl, rfl⟩) _ _ _ _ _).on fun _ => ⟨trivial⟩)
      · exact failAndRelease_fits

theorem submitOrder_fits {now : Time} {service : Service} {loaded : Option Coupon} {submission : Submission}
    (hc : 0 < o.chargePaise) (hbig : inBigInteger o.chargePaise = true) :
    FitsColumns (submitOrder now o service loaded submission) := by
  refine .query fun _ _ => ?_
  split
  · exact settleSubmission_fits _ hc hbig
  · exact .bind ⟨trivial⟩ fun _ => settleSubmission_fits _ hc hbig

/-- The reseller's record of the order, if one is made, fits. -/
def Quoted.ResaleFits (quoted : Quoted) (o : Order) : Prop := ∀ r, quoted.reseller.filter (·.active) = .some r →
  (ResellerOrder.mk o.userId o.publicId o.chargePaise (scaleRetail quoted.quote)).inColumns = true

theorem redeemCoupon_fits {loaded : Option Coupon} : FitsColumns (redeemCoupon o loaded) := by
  unfold redeemCoupon
  split
  · exact ⟨trivial⟩
  · cases loaded with
    | none => exact ⟨keepsBanked_of_rest fun _ => ⟨rfl, rfl, rfl, rfl⟩, trivial⟩
    | some coupon =>
      exact ⟨keepsBanked_of_rest fun _ => ⟨rfl, rfl, rfl, rfl⟩, keepsBanked_of_rest fun _ => ⟨rfl, rfl, rfl, rfl⟩, trivial⟩

theorem bookOrder_fits {now : Time} {quoted : Quoted} (ho : o.inColumns = true) (hr : quoted.ResaleFits o) :
    FitsColumns (bookOrder now o quoted) := by
  have hresale : FitsColumns (recordResale o quoted) := by
    unfold recordResale
    split
    · next r hr' => exact ⟨insertResellerOrder_keepsBanked (hr r hr'), trivial⟩
    · exact ⟨trivial⟩
  exact .bind ⟨insertOrder_keepsBanked ho, trivial⟩ fun _ => .bind ⟨trivial⟩ fun _ =>
    .bind ⟨keepsBanked_of_rest fun _ => ⟨rfl, rfl, rfl, rfl⟩, trivial⟩ fun _ => .bind hresale fun _ =>
    .bind reserve_fits fun _ => .bind recordEvent_fits fun _ => .bind redeemCoupon_fits fun _ => ⟨trivial⟩

/-- What booking returns is the order, of the same charge. -/
theorem bookOrder_results {now : Time} {quoted : Quoted} :
    (bookOrder now o quoted).allResults fun o' => o'.chargePaise = o.chargePaise := by
  have hrest (_ : LedgerEntry) : (recordEvent now o .awaitingProvider "Funds reserved" >>= fun order =>
      redeemCoupon order quoted.coupon >>= fun _ => Pure.pure order).allResults fun o' =>
        o'.chargePaise = o.chargePaise :=
    allResults_bind recordEvent_results fun o₁ h₁ => allResults_bind allResults_true fun _ _ => h₁.1
  exact allResults_bind allResults_true fun _ _ => allResults_bind allResults_true fun _ _ =>
    allResults_bind allResults_true fun _ _ => allResults_bind allResults_true fun _ _ =>
    allResults_bind allResults_true fun e _ => hrest e

end

/-! ## A reseller's record stays -/

/-- Whatever the engine writes, a reseller's record stays. -/
theorem orderStmts_keepResale (r : ResellerOrder) : OrderStmts fun w => w.Keeps fun d => r ∈ d.resellerOrders where
  wallet _ _ _ _ h := h
  entry _ _ _ _ h := h
  order _ _ h := h
  row _ _ _ _ h := h
  event _ _ h := h
  record _ _ _ _ h := h
  resale _ _ h := List.mem_append_left _ h
  usedCount _ _ _ h := h
  redeem _ _ h := h
  unredeem _ _ h := h
  audit _ _ h := h

section

variable {db db' : Db} {o : Order} {r : ResellerOrder}

/-- A session of tables that have the record, and that stages nothing against it. -/
abbrev KeepsResale (r : ResellerOrder) (s : Session) : Prop :=
  s.Kept (fun d => r ∈ d.resellerOrders) fun w => w.Keeps fun d => r ∈ d.resellerOrders

theorem wp_bookOrder_resold {now : Time} {quoted : Quoted} {reseller : Reseller} {s : Session}
    (hreseller : quoted.reseller.filter (·.active) = .some reseller) :
    (bookOrder now o quoted).wp (fun _ => KeepsResale ⟨o.userId, o.publicId, o.chargePaise, scaleRetail quoted.quote⟩)
      (fun _ _ => True) s := by
  have hstmts := orderStmts_keepResale ⟨o.userId, o.publicId, o.chargePaise, scaleRetail quoted.quote⟩
  simp only [bookOrder, wp_bind, wp_write, flush, wp_flushed]
  split
  case h_2 => trivial
  next d _ =>
  simp only [recordResale, hreseller, wp_write]
  -- what follows the reserve, which writes the record
  have hrest (d' : Db) (hrow : ⟨o.userId, o.publicId, o.chargePaise, scaleRetail quoted.quote⟩ ∈ d'.resellerOrders) :
      (recordEvent now o .awaitingProvider "Funds reserved" >>= fun order =>
        redeemCoupon order quoted.coupon >>= fun _ => Pure.pure order).wp
        (fun _ => KeepsResale ⟨o.userId, o.publicId, o.chargePaise, scaleRetail quoted.quote⟩) (fun _ _ => True)
        { db := d', sent := s.sent } :=
    wp_mono (Writes.wp (fun _ hw => hw) (.bind (recordEvent_writes hstmts) fun _ => .bind (redeemCoupon_writes hstmts)
      fun _ => .pure _) ⟨hrow, by simp⟩) (fun _ _ h => h) fun _ _ _ => trivial
  rw [reserve]
  cases hf : Txn.flushAll [Stmt.insertRecord o.idempotencyKey (.order o.publicId), Stmt.insertResellerOrder
      ⟨o.userId, o.publicId, o.chargePaise, scaleRetail quoted.quote⟩] d with
  | none =>
    by_cases hc : 0 < o.chargePaise
    · exact wp_post_stuck hf hc trivial
    · simp only [post, wp_bind, wp_require, orderPosting, hc, decide_false, Bool.false_eq_true, if_false]
  | some d' =>
    have hrow : ⟨o.userId, o.publicId, o.chargePaise, scaleRetail quoted.quote⟩ ∈ d'.resellerOrders := by
      simp only [Txn.flushAll] at hf
      split at hf
      · split at hf <;> cases hf
        exact List.mem_append_right _ List.mem_cons_self
      · cases hf
    refine wp_post hf (fun _ => trivial) (fun _ _ => trivial) (fun _ _ _ => ?_) fun e _ => ?_
    · have hdone := hrest d' hrow
      simp only [wp_bind] at hdone
      exact hdone
    · have hdone := hrest (d'.posted e) hrow
      simp only [wp_bind] at hdone
      exact hdone

end

/-! ## What a quote comes to -/

namespace Db

variable (db : Db) (service : Service) (quantity : Int) (userId : Option Int)

/-- What everyone else would be charged for the order, as a reseller's record keeps it. -/
def retailFor (coupon : Option Coupon) : Int :=
  let charge := db.chargeFor service quantity userId coupon
  let saved := max 0 (scaleToQty (db.retailRate service userId) quantity - db.subtotal service quantity userId)
  max (charge + saved) charge

/-- The buyer is no active reseller, or the retail price of what is asked for fits an INTEGER. -/
def ResaleFits (now : Time) (buyer : Int) (request : OrderRequest) : Prop :=
  db.resold (.some buyer) = true → ∀ service coupon, db.findService request.serviceId = .some service →
    db.CouponTerms service request.quantity (.some buyer) now request.couponCode coupon →
    db.retailFor service request.quantity (.some buyer) coupon ≤ 2147483647

/-- What the tables hold fits: rows, wallets, and services as a synchronisation lets them in. -/
structure Storable : Prop where
  rows : db.inColumns = true
  wallets : ∀ u user, db.users u = .some user → inBigInteger u = true ∧ inBigInteger user.cachedBalancePaise = true
  services : ∀ s ∈ db.catalog.services, 0 ≤ s.ratePer1000Paise ∧ inInteger s.minQty = true ∧ inInteger s.maxQty = true

end Db

section

variable {db : Db} {now : Time} {userId : Int} {request : OrderRequest} {service : Service} {quoted : Quoted}
  {link : String} {extra : Extra} {key : Key} {publicId : String}

theorem inInteger_between {a b n : Int} (ha : inInteger a = true) (hb : inInteger b = true) (h : a ≤ n ∧ n ≤ b) :
    inInteger n = true := by
  rw [inInteger_iff] at ha hb ⊢
  omega

/-- The row of an order that can be paid fits. -/
theorem newOrder_inColumns (hdb : db.Storable) (hchecked : db.Checked now userId request service quoted.coupon)
    (hquotes : db.Quotes service request.quantity (.some userId) quoted)
    (hbig : inBigInteger quoted.quote.chargePaise = true) (hid : inBigInteger userId = true) :
    (newOrder now publicId userId service link extra quoted.quote key).inColumns = true := by
  obtain ⟨hrate, hmin, hmax⟩ := hdb.services service (List.mem_of_find?_eq_some hchecked.found)
  have hquantity : inInteger quoted.quote.quantity = true := by
    rw [hquotes.ordered]
    exact inInteger_between hmin hmax hchecked.priced.inRange
  have hcost : inBigInteger quoted.quote.costPaise = true := by
    have hnonneg : 0 ≤ scaleToQty service.ratePer1000Paise request.quantity := scaleToQty_nonneg hrate
    have hle : scaleToQty service.ratePer1000Paise request.quantity ≤ quoted.quote.chargePaise :=
      hquotes.charge ▸ Db.cost_le_chargeFor
    rw [hquotes.cost]
    rw [inBigInteger_iff] at hbig ⊢
    omega
  have hzero : inInteger 0 = true := rfl
  simp [Order.inColumns, Order.integers, newOrder, hquantity, hbig, hcost, hid, hzero]

theorem Db.Quotes.retail (hquotes : db.Quotes service request.quantity (.some userId) quoted) :
    scaleRetail quoted.quote = db.retailFor service request.quantity (.some userId) quoted.coupon := by
  simp only [scaleRetail, Db.retailFor, hquotes.charge, hquotes.saved]

/-- The reseller's record fits exactly when the retail price does. -/
theorem resaleFits_iff (hchecked : db.Checked now userId request service quoted.coupon)
    (hquotes : db.Quotes service request.quantity (.some userId) quoted) (hpos : 0 < quoted.quote.chargePaise)
    (hid : inBigInteger userId = true) :
    quoted.ResaleFits (newOrder now publicId userId service link extra quoted.quote key) ↔
      db.ResaleFits now userId request := by
  have hfits : (ResellerOrder.mk userId publicId quoted.quote.chargePaise (scaleRetail quoted.quote)).inColumns = true ↔
      db.retailFor service request.quantity (.some userId) quoted.coupon ≤ 2147483647 := by
    have hle : quoted.quote.chargePaise ≤ scaleRetail quoted.quote := le_max_right _ _
    rw [← hquotes.retail]
    simp only [ResellerOrder.inColumns, hid, List.all_cons, List.all_nil, Bool.and_true, Bool.true_and,
      Bool.and_eq_true, inInteger_iff]
    omega
  have hresold : db.resold (.some userId) = true ↔ ∃ r, quoted.reseller.filter (·.active) = .some r := by
    rw [hquotes.reseller]
    exact Option.isSome_iff_exists
  constructor
  · intro h hr service' coupon hfound hterms
    obtain ⟨r, hr⟩ := hresold.mp hr
    obtain rfl := Option.some.inj (hchecked.found.symm.trans hfound)
    rw [← hchecked.priced.coupon.unique hterms]
    exact hfits.mp (h r hr)
  · intro h r hr
    exact hfits.mpr (h (hresold.mpr ⟨r, hr⟩) service quoted.coupon hchecked.found hchecked.priced.coupon)

/-- Under the lock, all that is written fits, if a reseller's record does. -/
theorem placeUnder_fits {user : User} {submission : Submission} (hdb : db.Storable)
    (hchecked : db.Checked now userId request service quoted.coupon)
    (hquotes : db.Quotes service request.quantity (.some userId) quoted) (hpos : 0 < quoted.quote.chargePaise)
    (hid : inBigInteger userId = true) (hbalance : inBigInteger user.cachedBalancePaise = true)
    (hreserved : 0 ≤ user.cachedReservedPaise) (hresale : db.ResaleFits now userId request) :
    FitsColumns (placeUnder now publicId userId user service link extra quoted key submission) := by
  refine .bind (loadIdempotentOrder_writes _).on fun existing => ?_
  split
  · exact ⟨trivial⟩
  refine .require fun hav => ?_
  have hbig : inBigInteger quoted.quote.chargePaise = true := by
    have hav : quoted.quote.chargePaise ≤ user.cachedBalancePaise - user.cachedReservedPaise := of_decide_eq_true hav
    rw [inBigInteger_iff] at hbalance ⊢
    omega
  refine .bind_results (bookOrder_fits (newOrder_inColumns hdb hchecked hquotes hbig hid)
    ((resaleFits_iff hchecked hquotes hpos hid).mpr hresale)) bookOrder_results fun o' ho' => ?_
  have hcharge : o'.chargePaise = quoted.quote.chargePaise := ho'
  exact submitOrder_fits (hcharge ▸ hpos) (hcharge ▸ hbig)

/-- A new order of an active reseller leaves its record. -/
theorem wp_placeUnder_resold {user : User} {submission : Submission} {reseller : Reseller}
    (hreseller : quoted.reseller.filter (·.active) = .some reseller) :
    (placeUnder now publicId userId user service link extra quoted key submission).wp
      (fun _ s => s = { db := db } ∨
        KeepsResale ⟨userId, publicId, quoted.quote.chargePaise, scaleRetail quoted.quote⟩ s)
      (fun _ _ => True) { db := db } := by
  have hload : (loadIdempotentOrder key).Reads fun _ => True := by
    refine .bind (.query _) fun r => ?_
    split
    · exact .query _
    · exact .query _
  simp only [placeUnder, wp_bind]
  refine hload.wp (fun existing => ?_) fun _ _ => trivial
  split
  · exact .inl rfl
  simp only [placeNew, wp_bind, wp_require]
  split
  case isFalse => trivial
  refine wp_mono (wp_bookOrder_resold hreseller) (fun o' s h => ?_) fun _ _ _ => trivial
  exact wp_mono (Writes.wp (fun _ hw => hw) (submitOrder_writes (orderStmts_keepResale _)) h) (fun _ _ h' => .inr h')
    fun _ _ _ => trivial

end

/-- Placing an order, once its request has passed. -/
def placeChecked (now : Time) (publicId : String) (userId : Int) (request : OrderRequest) (submission : Submission)
    (service : Service) (link : String) (extra : Extra) (quoted : Quoted) : M Order :=
  .require (0 < quoted.quote.chargePaise) (.order "Quoted charge is invalid") >>= fun _ =>
    lockUser userId >>= fun user => placeUnder now publicId userId user service link extra quoted
      (request.key now userId service.id link extra quoted.quote.couponCode) submission

section

variable {db db' : Db} {now : Time} {publicId : String} {userId : Int} {request : OrderRequest}
  {submission : Submission} {service : Service} {link : String} {extra : Extra} {quoted : Quoted}

/-- An order that is accepted has passed its checks; the rest decides what is committed. -/
theorem placeOrder_accepted (h : (placeOrder now publicId userId request submission).commits db = .some db') :
    ∃ service link extra quoted, db.Checked now userId request service quoted.coupon ∧
      db.Quotes service request.quantity (.some userId) quoted ∧
      (placeChecked now publicId userId request submission service link extra quoted).commits db = .some db' ∧
      ((placeOrder now publicId userId request submission).checked Db.inColumns).commits db =
        ((placeChecked now publicId userId request submission service link extra quoted).checked Db.inColumns).commits
          db := by
  obtain ⟨o, s, hr, hf⟩ := commits_eq_some.mp h
  have hchecked : (checkRequest now userId request).wp (fun a _ => db.Checked now userId request a.1 a.2.2.2.coupon ∧
      db.Quotes a.1 request.quantity (.some userId) a.2.2.2) (fun _ _ => True) { db := db } :=
    wp_checkRequest (fun _ _ _ _ hc hq => ⟨hc, hq⟩) fun _ _ => trivial
  rw [placeOrder_eq, bind_eq, run_bind] at hr
  split at hr
  case h_2 => cases hr
  next a s₁ hcheck =>
  obtain ⟨hc, hq⟩ := wp_ok hchecked hcheck
  obtain ⟨service, link, extra, quoted⟩ := a
  have hrest : (placeOrder now publicId userId request submission).commits db =
        (placeChecked now publicId userId request submission service link extra quoted).commits db ∧
      ((placeOrder now publicId userId request submission).checked Db.inColumns).commits db =
        ((placeChecked now publicId userId request submission service link extra quoted).checked Db.inColumns).commits
          db := commits_bind_reads (checkRequest_reads now userId request) hcheck
  exact ⟨service, link, extra, quoted, hc, hq, hrest.1.symm.trans h, hrest.2⟩

theorem placeChecked_fits (hdb : db.Storable) (hc : db.Checked now userId request service quoted.coupon)
    (hq : db.Quotes service request.quantity (.some userId) quoted) (hresale : db.ResaleFits now userId request) :
    FitsColumns (placeChecked now publicId userId request submission service link extra quoted) := by
  refine .require fun hpos => lockUser_fits fun d user hd hu => ?_
  obtain ⟨hid, hbalance, hreserved, -⟩ := hd.wallets userId user hu
  exact placeUnder_fits hdb hc hq (of_decide_eq_true hpos) hid hbalance hreserved hresale

/-- The record of a new order fits, where all rows do. -/
theorem resaleFits_of_stored (hdb : db.Storable) (hc : db.Checked now userId request service quoted.coupon)
    (hq : db.Quotes service request.quantity (.some userId) quoted)
    (hrest : (placeChecked now publicId userId request submission service link extra quoted).commits db = .some db')
    (hnew : db'.orders ≠ db.orders) (hstored : db'.inColumns = true) : db.ResaleFits now userId request := by
  obtain ⟨o, s, hr, hf⟩ := commits_eq_some.mp hrest
  have hdone : (placeChecked now publicId userId request submission service link extra quoted).wp
      (fun _ s => 0 < quoted.quote.chargePaise ∧ (∃ user, db.users userId = .some user) ∧
        ∀ reseller, quoted.reseller.filter (·.active) = .some reseller → s = { db := db } ∨
          KeepsResale ⟨userId, publicId, quoted.quote.chargePaise, scaleRetail quoted.quote⟩ s)
      (fun _ _ => True) { db := db } := by
    simp only [placeChecked, wp_bind, wp_require, decide_eq_true_eq]
    split
    case isFalse => trivial
    next hpos =>
    simp only [lockUser, wp_bind]
    refine wp_flush rfl ?_
    simp only [wp_lockRow]
    cases hu : db.users userId with
    | none => trivial
    | some user =>
      simp only [wp_pure']
      refine wp_of_run (fun o s hr => ⟨hpos, ⟨user, rfl⟩, fun reseller hreseller => ?_⟩) fun _ _ _ => trivial
      exact wp_ok (wp_placeUnder_resold hreseller) hr
  obtain ⟨hpos, ⟨user, hu⟩, hresold⟩ := wp_ok hdone hr
  have hfits : quoted.ResaleFits (newOrder now publicId userId service link extra quoted.quote
      (request.key now userId service.id link extra quoted.quote.couponCode)) := by
    intro r hreseller
    rcases hresold r hreseller with rfl | hkept
    · obtain rfl : db = db' := Option.some.inj hf
      exact absurd rfl hnew
    · exact (Db.inColumns_iff.mp hstored).2.1 _ (hkept.will (fun _ hw => hw) hf)
  exact (resaleFits_iff hc hq hpos (hdb.wallets _ user hu).1).mp hfits

end

/-- An active reseller with ₹10 crore, and likes at ₹1,250 per thousand for everyone else. -/
def wholesale : Db where
  users u := if u = 7 then .some { telegramId := 7, cachedBalancePaise := 10000000000 } else .none
  resellers u := if u = 7 then .some ⟨7, 0, true⟩ else .none
  catalog := {
    services := [{ likes with ratePer1000Paise := 100000, maxQty := 100000000 }]
    providers := [⟨"panel", true, .none, .none⟩] }

def bulk (quantity : Int) : OrderRequest := { likesFor "a" with quantity := quantity }

def placeBulk (quantity : Int) : M Order := placeOrder 0 "A" 7 (bulk quantity) (.taken "1")

theorem wholesale_opening : Opening wholesale := by
  refine ⟨rfl, rfl, fun _ => rfl, fun u user hu => ?_⟩
  simp only [wholesale] at hu
  split at hu <;> cases hu
  exact ⟨rfl, show (0 : Int) ≤ 10000000000 by decide⟩

theorem wholesale_storable : wholesale.Storable := by
  refine ⟨rfl, fun u user hu => ?_, fun s hs => ?_⟩
  · simp only [wholesale] at hu
    split at hu
    · next h =>
      cases hu
      subst h
      exact ⟨by decide, by decide⟩
    · cases hu
  · rw [List.mem_singleton.mp hs]
    decide

end Falaron
