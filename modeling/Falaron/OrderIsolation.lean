/-
One user's orders and another's.

The key a request sends is looked up among the orders of everybody, and the
column it is kept in is unique. A user who sends a key that another user has
sent gets the other's order. Else the others' calls make no difference
(`isolated_iff`): they leave the catalogue, the wallet and the keys of the
ledger that the request reads as they are.
-/
import Falaron.OrderPlacing
import Falaron.OrderPricing
import Falaron.Txn.Blind
import Falaron.Txn.Run

namespace Falaron.Core

open Py (Decimal)
open Txn (Session)
open Txn.Prog (wp wp_mono wp_bind wp_query Blind)

/-! ## A call's outcome -/

/-- What a call answers. -/
def outcome (env : Surroundings) (answer : Except Err ProviderOrderResult) (a : OrderArgs) (db : Db) :
    Except Err Order :=
  ((placeOrder env answer a).run { db := db }).1

/-- The request passes the checks before the lookup. -/
def passes (env : Surroundings) (a : OrderArgs) (db : Db) : Bool := ((checkedRequest env a).run { db := db }).1.isOk

/-! ## What one request reads -/

/-- The tables no order changes. -/
def Db.catalog (db : Db) : Db := { db with wallets := fun _ => none, transactions := [], orders := [] }

/-- The other modules read the catalogue only. -/
structure ReadsCatalog (env : Surroundings) : Prop where
  premium : ∀ apply, env.applyPremiumToOrder = some apply → ∀ db, apply db = apply db.catalog
  coupon : ∀ db, env.previewCoupon db = env.previewCoupon db.catalog
  price : ∀ db, env.calculatePrice db = env.calculatePrice db.catalog

/-- The coupon engine and the pricing engine do. -/
theorem readsCatalog_within (e : Engines) {env : Surroundings}
    (h : ∀ apply, env.applyPremiumToOrder = some apply → ∀ db, apply db = apply db.catalog) :
    ReadsCatalog (e.within env) :=
  ⟨h, fun _ => rfl, fun _ => rfl⟩

/-- An order in the way of the request's: it has the id, the key or the reference. -/
def inTheWay (env : Surroundings) (a : OrderArgs) (o : Order) : Bool :=
  o.id = env.orderId || o.idempotencyKey = idemKey env a || o.publicRef = env.publicRef

/-- The two keys the request has in the ledger. -/
def ledgerKeys (key : String) : List String := ["order_debit:" ++ key, "order_refund:" ++ key]

/-- The tables are the same as far as the request reads them. -/
structure SameRequest (env : Surroundings) (a : OrderArgs) (db db' : Db) : Prop where
  catalog : db'.catalog = db.catalog
  wallet : db'.wallets a.userId = db.wallets a.userId
  ledger : ∀ k ∈ ledgerKeys (idemKey env a), db'.findTransaction k = db.findTransaction k
  orders : db'.orders.filter (inTheWay env a) = db.orders.filter (inTheWay env a)

section

variable {env : Surroundings} {a : OrderArgs} {db db' : Db} {R : Db → Db → Prop}

theorem blind_lift {α : Type} (x : Except Err α) : (lift x).Blind R := by
  cases x with
  | error e => exact .throw e
  | ok r => exact .pure r

theorem blind_orRaise {α : Type} (e : Err) (o : Option α) : (orRaise e o).Blind R := by
  cases o with
  | none => exact .throw e
  | some r => exact .pure r

theorem blind_scalarOneOrNone {α : Type} (l : List α) : (scalarOneOrNone l).Blind R := by
  match l with
  | [] => exact .pure none
  | [r] => exact .pure (some r)
  | _ :: _ :: _ => exact .throw _

theorem blind_checkRisk (price : Decimal) : (checkRisk env a price).Blind R := by
  unfold checkRisk
  split
  · exact .require _ _
  · split
    · exact .throw _
    · exact .pure ()

/-- The checks read the catalogue. -/
theorem blind_checkedRequest (henv : ReadsCatalog env) (hR : ∀ db db', R db db' → db'.catalog = db.catalog) :
    (checkedRequest env a).Blind R := by
  have hcat : ∀ {α : Type} (q : Db → α), (∀ db, q db = q db.catalog) → ∀ db db', R db db' → q db' = q db := by
    intro α q hq db db' h
    rw [hq db', hR db db' h, ← hq db]
  unfold checkedRequest
  refine .bind (blind_lift _) fun _ => .bind (.query (hcat _ fun _ => rfl)) fun _ => .bind (blind_orRaise _ _) fun svc =>
    .bind (.require _ _) fun _ => .bind ?_ fun premium => .bind (.query (hcat _ fun _ => rfl)) fun _ =>
    .bind (blind_scalarOneOrNone _) fun _ => .bind (blind_orRaise _ _) fun mapping =>
    .bind (.query (hcat _ fun _ => rfl)) fun _ => .bind (blind_orRaise _ _) fun provider =>
    .bind (.query (hcat _ fun _ => rfl)) fun _ => .bind (blind_orRaise _ _) fun providerSvc => .bind (.require _ _) fun _ =>
    .bind (.query (hcat _ fun db => ?_)) fun flat => .bind (.bind (.query (hcat _ fun db => ?_)) fun _ => blind_lift _)
    fun price => .bind (.require _ _) fun _ => .pure _
  · unfold premiumOf
    split
    · next apply happly =>
      refine .bind (.query (hcat _ fun db => ?_)) fun _ => blind_lift _
      rw [henv.premium apply happly db]
    · exact .pure _
  · simp only [couponFlat, henv.coupon db]
  · rw [henv.price db]

theorem SameRequest.findOrder (h : SameRequest env a db db') :
    db'.findOrder (idemKey env a) = db.findOrder (idemKey env a) := by
  have hfind : ∀ db : Db, db.findOrder (idemKey env a) =
      (db.orders.filter (inTheWay env a)).find? (·.idempotencyKey == idemKey env a) := by
    intro db
    rw [List.find?_filter, Db.findOrder]
    congr 1
    funext o
    by_cases hk : o.idempotencyKey = idemKey env a <;> simp [inTheWay, hk]
  rw [hfind, hfind, h.orders]

theorem findTransaction_append {t : WalletTransaction} {l : List WalletTransaction} (k : String)
    (hl : db.transactions = l) : ({ db with transactions := l ++ [t] } : Db).findTransaction k =
      (db.findTransaction k).or (if t.idempotencyKey = k then some t else none) := by
  subst hl
  exact Db.findTransaction_posted k

theorem alike_setBalance {balance : Int} : (Stmt.setBalance a.userId balance).Alike (SameRequest env a) := by
  refine ⟨fun _ => rfl, fun {db db'} h _ => ⟨h.catalog, ?_, h.ledger, h.orders⟩⟩
  show (if _ then _ else _) = (if _ then _ else _)
  rw [if_pos rfl, if_pos rfl, h.wallet]

theorem alike_insertTransaction {t : WalletTransaction} (ht : t.idempotencyKey ∈ ledgerKeys (idemKey env a)) :
    (Stmt.insertTransaction t).Alike (SameRequest env a) := by
  refine ⟨fun {db db'} h => ?_, fun {db db'} h _ => ⟨h.catalog, h.wallet, fun k hk => ?_, h.orders⟩⟩
  · simp only [Stmt.insertTransaction, h.ledger _ ht]
  · show Db.findTransaction { db' with transactions := db'.transactions ++ [t] } k =
      Db.findTransaction { db with transactions := db.transactions ++ [t] } k
    rw [findTransaction_append k rfl, findTransaction_append k rfl, h.ledger k hk]

theorem alike_insertOrder {o : Order} (hid : o.id = env.orderId) (hkey : o.idempotencyKey = idemKey env a)
    (href : o.publicRef = env.publicRef) : (Stmt.insertOrder o).Alike (SameRequest env a) := by
  have hall : ∀ db : Db, db.orders.all (fun p => p.id != o.id && p.idempotencyKey != o.idempotencyKey &&
      p.publicRef != o.publicRef) = (db.orders.filter (inTheWay env a)).isEmpty := by
    intro db
    rw [hid, hkey, href, Bool.eq_iff_iff, List.isEmpty_iff, List.filter_eq_nil_iff, List.all_eq_true]
    refine forall₂_congr fun p _ => ?_
    simp [inTheWay, and_assoc]
  refine ⟨fun {db db'} h => ?_, fun {db db'} h _ => ⟨h.catalog, h.wallet, h.ledger, ?_⟩⟩
  · simp only [Stmt.insertOrder, hall, h.orders]
  · simp only [Stmt.insertOrder, List.filter_append, h.orders]

theorem alike_setOrder {o : Order} (hid : o.id = env.orderId) : (Stmt.setOrder o).Alike (SameRequest env a) := by
  have hfilter : ∀ l : List Order, (l.map fun p => if p.id = o.id then o else p).filter (inTheWay env a) =
      (l.filter (inTheWay env a)).map fun p => if p.id = o.id then o else p := by
    intro l
    rw [List.filter_map]
    congr 1
    refine List.filter_congr fun p _ => ?_
    by_cases hp : p.id = o.id
    · simp [inTheWay, hp, hid]
    · simp [hp]
  refine ⟨fun _ => rfl, fun {db db'} h _ => ⟨h.catalog, h.wallet, h.ledger, ?_⟩⟩
  simp only [Stmt.setOrder, hfilter, h.orders]

theorem blind_executeTransaction {c : TxArgs} {isCredit : Bool} (hu : c.userId = a.userId)
    (hk : c.idempotencyKey ∈ ledgerKeys (idemKey env a)) : (executeTransaction c isCredit).Blind (SameRequest env a) := by
  unfold executeTransaction
  refine .bind (.query fun db db' h => h.ledger _ hk) fun found => ?_
  cases found with
  | some t => exact .pure t
  | none =>
    refine .bind (.lockRow fun db db' h => hu ▸ h.wallet) fun wallet => ?_
    cases wallet with
    | none => exact .throw _
    | some w =>
      refine .bind (.require _ _) fun _ => .bind (.require _ _) fun _ => .bind (.write ?_) fun _ =>
        .bind (.write (alike_insertTransaction hk)) fun _ => .bind (.flushed _) fun _ => .pure _
      rw [hu]
      exact alike_setBalance

theorem blind_submitAnswered {answer : Except Err ProviderOrderResult} {p : Prepared} (hp : p.key = idemKey env a) :
    (submitAnswered env answer a p (newOrder env a p)).Blind (SameRequest env a) := by
  unfold submitAnswered
  refine .bind (.attempt (.bind (blind_lift _) fun _ => .bind (.write (alike_setOrder rfl)) fun _ =>
    .bind (.flushed _) fun _ => .pure _)) fun placed => ?_
  cases placed with
  | ok order => exact .pure order
  | error exc =>
    refine .bind (.write (alike_setOrder rfl)) fun _ => .bind (.flushed _) fun _ =>
      .bind (blind_executeTransaction rfl ?_) fun _ => .throw _
    simp [refundArgs, ledgerKeys, hp]

/-- What comes after the preparation. -/
def placePrepared (env : Surroundings) (answer : Except Err ProviderOrderResult) (a : OrderArgs) :
    Order ⊕ Prepared → M Order
  | .inl existing => pure existing
  | .inr p => do
    let _ ← debit (debitArgs a p)
    .write (Stmt.insertOrder (newOrder env a p))
    flush
    submitAnswered env answer a p (newOrder env a p)

theorem blind_placePrepared {answer : Except Err ProviderOrderResult} {r : Order ⊕ Prepared}
    (hr : ∀ p, r = .inr p → p.key = idemKey env a) : (placePrepared env answer a r).Blind (SameRequest env a) := by
  cases r with
  | inl existing => exact .pure existing
  | inr p =>
    have hp := hr p rfl
    refine .bind (blind_executeTransaction rfl ?_) fun _ => .bind (.write (alike_insertOrder rfl hp rfl)) fun _ =>
      .bind (.flushed _) fun _ => blind_submitAnswered hp
    simp [debitArgs, ledgerKeys, hp]

theorem placeOrder_eq (env : Surroundings) (answer : Except Err ProviderOrderResult) (a : OrderArgs) :
    placeOrder env answer a = prepare env a >>= placePrepared env answer a := by
  unfold placeOrder
  congr 1

theorem blind_prepare (henv : ReadsCatalog env) : (prepare env a).Blind (SameRequest env a) := by
  rw [prepare_eq]
  refine .bind (blind_checkedRequest henv fun _ _ h => h.catalog) fun p => .bind (.query fun _ _ h => h.findOrder)
    fun found => ?_
  cases found with
  | some existing => exact .pure _
  | none => exact .bind (blind_checkRisk _) fun _ => .pure _

/-- The preparation leaves the session, and what it has prepared has the request's key. -/
theorem prepare_leaves (env : Surroundings) (a : OrderArgs) (db : Db) :
    (prepare env a).wp (fun r s => s = { db := db } ∧ ∀ p, r = .inr p → p.key = idemKey env a)
      (fun _ s => s = { db := db }) { db := db } := by
  refine wp_prepare (fun _ => rfl) (fun o _ => ⟨rfl, fun p hp => (by cases hp)⟩) fun p hp => ⟨rfl, ?_⟩
  rintro _ ⟨⟩
  exact hp.key

/-- The outcome is that of the tables the request reads. -/
theorem SameRequest.outcome (h : SameRequest env a db db') (henv : ReadsCatalog env)
    (answer : Except Err ProviderOrderResult) : outcome env answer a db' = outcome env answer a db := by
  have hprepare := (blind_prepare (a := a) henv).run h
  have hleaves := prepare_leaves env a db
  have hleaves' := prepare_leaves env a db'
  simp only [Core.outcome, placeOrder_eq, Txn.Prog.bind_eq, Txn.Prog.run_bind]
  cases hrun : (prepare env a).run { db := db } with
  | mk r s =>
    cases hrun' : (prepare env a).run { db := db' } with
    | mk r' s' =>
      rw [hrun, hrun'] at hprepare
      obtain rfl : r' = r := hprepare
      cases r' with
      | error e => rfl
      | ok r =>
        obtain ⟨rfl, hkey⟩ := Txn.Prog.wp_ok hleaves hrun
        obtain ⟨rfl, -⟩ := Txn.Prog.wp_ok hleaves' hrun'
        exact (blind_placePrepared hkey).run h

/-- The checks leave the session. -/
theorem checkedRequest_leaves (env : Surroundings) (a : OrderArgs) (db : Db) :
    ((checkedRequest env a).run { db := db }).2 = { db := db } := by
  have hwp : (checkedRequest env a).wp (fun _ s => s = { db := db }) (fun _ s => s = { db := db }) { db := db } :=
    wp_checkedRequest (fun _ => rfl) fun _ _ => rfl
  cases hrun : (checkedRequest env a).run { db := db } with
  | mk r s =>
    cases r with
    | error e => exact Txn.Prog.wp_error hwp hrun
    | ok p => exact Txn.Prog.wp_ok hwp hrun

/-- The outcome, by what the checks say. -/
theorem outcome_eq (answer : Except Err ProviderOrderResult) : outcome env answer a db =
    match ((checkedRequest env a).run { db := db }).1 with
    | .error e => .error e
    | .ok p => ((findOrPlace env a p >>= placePrepared env answer a).run { db := db }).1 := by
  have hleaves := checkedRequest_leaves env a db
  rw [outcome, placeOrder_eq, prepare_eq, Txn.Prog.bind_bind, Txn.Prog.bind_eq, Txn.Prog.run_bind]
  cases hrun : (checkedRequest env a).run { db := db } with
  | mk r s =>
    rw [hrun] at hleaves
    obtain rfl : s = { db := db } := hleaves
    cases r <;> rfl

/-- A request that fails a check is refused alike whatever orders there are. -/
theorem outcome_of_not_passes (h : db'.catalog = db.catalog) (henv : ReadsCatalog env)
    (answer : Except Err ProviderOrderResult) (hno : passes env a db' = false) :
    outcome env answer a db' = outcome env answer a db ∧ ∃ e, outcome env answer a db' = .error e := by
  have hsame : ((checkedRequest env a).run { db := db' }).1 = ((checkedRequest env a).run { db := db }).1 :=
    (blind_checkedRequest (R := fun db db' => db'.catalog = db.catalog) henv fun _ _ h => h).run h
  rw [passes] at hno
  rw [outcome_eq, outcome_eq, ← hsame]
  cases hchecked : ((checkedRequest env a).run { db := db' }).1 with
  | error e => exact ⟨rfl, e, rfl⟩
  | ok p =>
    rw [hchecked] at hno
    cases hno

/-- A request that passes the checks is answered with the order its key has. -/
theorem outcome_of_found {o : Order} (answer : Except Err ProviderOrderResult) (hpasses : passes env a db = true)
    (ho : db.findOrder (idemKey env a) = some o) : outcome env answer a db = .ok o := by
  rw [passes] at hpasses
  rw [outcome_eq]
  cases hchecked : ((checkedRequest env a).run { db := db }).1 with
  | error e =>
    rw [hchecked] at hpasses
    cases hpasses
  | ok p =>
    show ((findOrPlace env a p >>= placePrepared env answer a).run { db := db }).1 = .ok o
    simp only [findOrPlace, Txn.Prog.bind_eq, Txn.Prog.run_bind, Txn.Prog.query, Txn.Prog.run, ho]
    rfl

/-- An order a call answers with is its user's own, if the one its key has is. -/
theorem outcome_own {answer : Except Err ProviderOrderResult} {o : Order}
    (hown : ∀ p, db.findOrder (idemKey env a) = some p → p.userId = a.userId)
    (ho : outcome env answer a db = .ok o) : o.userId = a.userId := by
  have hplaced : (placeOrder env answer a).wp (fun o _ => o.userId = a.userId) (fun _ _ => True) { db := db } :=
    wp_placeOrder rfl (fun _ => trivial) (fun _ => trivial) hown (fun _ _ _ _ _ => rfl)
      (fun _ _ _ _ _ _ => trivial) fun _ _ _ _ _ _ _ _ => trivial
  exact Txn.Prog.wp_ok hplaced (Prod.ext ho rfl)

end

/-! ## What others' calls leave -/

/-- A call of another user, and whether its caller commits when it raises. -/
structure PlaceCall where
  env : Surroundings
  answer : Except Err ProviderOrderResult
  args : OrderArgs
  keep : Bool

def PlaceCall.step (db : Db) (c : PlaceCall) : Db := (placeOrder c.env c.answer c.args).commit (keptAfter c.keep) db

def placeRun (db : Db) (calls : List PlaceCall) : Db := calls.foldl PlaceCall.step db

/-- From `db` to `db'`, others have placed the orders `new`. -/
structure Apart (u : Int) (key : String) (db db' : Db) (new : List Order) : Prop where
  catalog : db'.catalog = db.catalog
  wallet : db'.wallets u = db.wallets u
  orders : db'.orders = db.orders ++ new
  others : ∀ o ∈ new, o.userId ≠ u
  fresh : ∀ o ∈ new, db.findOrder o.idempotencyKey = none
  ledger : (∀ o ∈ new, o.idempotencyKey ≠ key) → ∀ k ∈ ledgerKeys key, db'.findTransaction k = db.findTransaction k

section

variable {u : Int} {key : String} {db db' db'' : Db} {new new' : List Order}

theorem Apart.refl : Apart u key db db [] :=
  ⟨rfl, rfl, (List.append_nil _).symm, by simp, by simp, fun _ _ _ => rfl⟩

theorem Apart.trans (h : Apart u key db db' new) (h' : Apart u key db' db'' new') :
    Apart u key db db'' (new ++ new') := by
  refine ⟨h'.catalog.trans h.catalog, h'.wallet.trans h.wallet, ?_, ?_, ?_, fun hkeys k hk => ?_⟩
  · rw [h'.orders, h.orders, List.append_assoc]
  · intro o ho
    rcases List.mem_append.mp ho with ho | ho
    · exact h.others o ho
    · exact h'.others o ho
  · intro o ho
    rcases List.mem_append.mp ho with ho | ho
    · exact h.fresh o ho
    · have hnone := h'.fresh o ho
      rw [Db.findOrder, h.orders, List.find?_append, Option.or_eq_none_iff] at hnone
      exact hnone.1
  · rw [h'.ledger (fun o ho => hkeys o (List.mem_append_right _ ho)) k hk,
      h.ledger (fun o ho => hkeys o (List.mem_append_left _ ho)) k hk]

/-- Two requests with a key of the ledger in common have the same key. -/
theorem ledgerKeys_disjoint {k key' : String} (h : k ∈ ledgerKeys key) (h' : k ∈ ledgerKeys key') : key = key' := by
  have hcross : ∀ x y : String, "order_debit:" ++ x ≠ "order_refund:" ++ y := by
    intro x y he
    have := congrArg String.toList he
    simp at this
  simp only [ledgerKeys, List.mem_cons, List.not_mem_nil, or_false] at h h'
  rcases h with rfl | rfl <;> rcases h' with h' | h'
  · exact (String.append_right_inj _).mp h'
  · exact absurd h' (hcross _ _)
  · exact absurd h'.symm (hcross _ _)
  · exact (String.append_right_inj _).mp h'

/-- An entry of another user in the ledger. -/
theorem Entered.elsewhere {c : TxArgs} {isCredit : Bool} (h : Entered db c isCredit db') (hu : c.userId ≠ u) :
    db'.catalog = db.catalog ∧ db'.wallets u = db.wallets u ∧ db'.orders = db.orders ∧
      ∀ k, c.idempotencyKey ≠ k → db'.findTransaction k = db.findTransaction k := by
  rcases h with ⟨_, _, rfl⟩ | ⟨t, ht, rfl⟩
  · exact ⟨rfl, rfl, rfl, fun _ _ => rfl⟩
  · obtain ⟨hwallet, hkey⟩ := ht.names
    refine ⟨rfl, ?_, rfl, fun k hk => ?_⟩
    · rw [Db.posted_wallets, if_neg]
      rw [hwallet]
      exact fun he => hu he.symm
    · rw [Db.findTransaction_posted, hkey, if_neg hk, Option.or_none]

theorem Apart.entered {c : TxArgs} {isCredit : Bool} (h : Apart u key db db' new) (hu : c.userId ≠ u)
    (hkey : (∀ o ∈ new, o.idempotencyKey ≠ key) → c.idempotencyKey ∉ ledgerKeys key)
    (hentered : Entered db' c isCredit db'') : Apart u key db db'' new := by
  obtain ⟨hcatalog, hwallet, horders, hledger⟩ := hentered.elsewhere hu
  refine ⟨hcatalog.trans h.catalog, hwallet.trans h.wallet, horders.trans h.orders, h.others, h.fresh,
    fun hkeys k hk => ?_⟩
  rw [hledger k, h.ledger hkeys k hk]
  rintro rfl
  exact hkey hkeys hk

/-- Another user's order, as it has become since it was opened. -/
theorem Opens.apart {env : Surroundings} {a : OrderArgs} {p : Prepared} {x : Order} (h : Opens env a db p db')
    (hu : a.userId ≠ u) (hid : x.id = env.orderId) (hkey : x.idempotencyKey = p.key) (hx : x.userId = a.userId) :
    Apart u key db ((Stmt.setOrder x).apply db') [x] := by
  obtain ⟨hprep, db₁, hentered, hadm, rfl⟩ := h
  obtain ⟨hcatalog, hwallet, horders, hledger⟩ := hentered.elsewhere hu
  have hnew : ∀ o ∈ db₁.orders, o.id ≠ x.id := by
    intro o ho
    have := List.all_eq_true.mp (Bool.and_eq_true_iff.mp hadm).1 o ho
    simp only [Bool.and_eq_true, bne_iff_ne] at this
    rw [hid]
    exact this.1.1
  have hset : (db₁.orders ++ [newOrder env a p]).map (fun o => if o.id = x.id then x else o) = db₁.orders ++ [x] := by
    have hself : (newOrder env a p).id = x.id := hid.symm
    rw [List.map_append, List.map_singleton, if_pos hself]
    congr 1
    exact (List.map_congr_left fun o ho => if_neg (hnew o ho)).trans (List.map_id _)
  refine ⟨hcatalog, hwallet, ?_, ?_, ?_, fun hkeys k hk => hledger k ?_⟩
  · show (db₁.orders ++ [newOrder env a p]).map _ = _
    rw [hset, horders]
  · simp [hx, hu]
  · simp [hkey, hprep.fresh]
  · rintro rfl
    refine hkeys x List.mem_cons_self (hkey.trans (ledgerKeys_disjoint ?_ hk))
    simp [ledgerKeys, debitArgs]

theorem PlaceCall.apart {c : PlaceCall} (hu : c.args.userId ≠ u) : ∃ new, Apart u key db (c.step db) new := by
  have hrefl : ∃ new, Apart u key db db new := ⟨[], .refl⟩
  refine Txn.Prog.commit_of_ended (P := fun db' => ∃ new, Apart u key db db' new) hrefl ?_
  refine wp_placeOrder rfl (fun _ _ => ⟨rfl, hrefl⟩) (fun _ h => by simp [keptAfter] at h) (fun _ _ => ⟨rfl, hrefl⟩) ?_ ?_ ?_
  · intro p db' r ho _
    exact ⟨rfl, _, ho.apart hu rfl rfl rfl⟩
  · intro p db' e err ho _ _
    exact ⟨rfl, _, ho.apart hu rfl rfl rfl⟩
  · intro p db' e err db'' ho _ hentered _
    refine ⟨rfl, _, (ho.apart (x := rejected (newOrder c.env c.args p)) hu rfl rfl rfl).entered hu (fun hkeys hk => ?_) hentered⟩
    refine hkeys _ List.mem_cons_self (ledgerKeys_disjoint ?_ hk)
    simp [ledgerKeys, refundArgs, rejected, newOrder]

theorem placeRun_apart {calls : List PlaceCall} (hu : ∀ c ∈ calls, c.args.userId ≠ u) :
    ∃ new, Apart u key db (placeRun db calls) new := by
  induction calls generalizing db with
  | nil => exact ⟨[], .refl⟩
  | cons c calls ih =>
    obtain ⟨new, hc⟩ : ∃ new, Apart u key db (c.step db) new := PlaceCall.apart (hu c List.mem_cons_self)
    obtain ⟨new', hcalls⟩ := ih fun c' hc' => hu c' (List.mem_cons_of_mem _ hc')
    exact ⟨_, hc.trans hcalls⟩

end

/-! ## Isolation -/

/-- The request has the outcome it has without the others' calls, and is answered with an order of its user only. -/
structure Isolated (env : Surroundings) (answer : Except Err ProviderOrderResult) (a : OrderArgs) (db db' : Db) :
    Prop where
  same : outcome env answer a db' = outcome env answer a db
  own : ∀ o, outcome env answer a db' = .ok o → o.userId = a.userId

section

variable {env : Surroundings} {a : OrderArgs} {db db' : Db} {new : List Order}

/-- Where the key has no order of another user, none of the new orders has it. -/
theorem Apart.key_free (h : Apart a.userId (idemKey env a) db db' new)
    (hown : ∀ o, db'.findOrder (idemKey env a) = some o → o.userId = a.userId) :
    ∀ o ∈ new, o.idempotencyKey ≠ idemKey env a := by
  intro o ho hkey
  have hnone : db.orders.find? (·.idempotencyKey == idemKey env a) = none := hkey ▸ h.fresh o ho
  cases hfind : new.find? (·.idempotencyKey == idemKey env a) with
  | none =>
    have := List.find?_eq_none.mp hfind o ho
    simp [hkey] at this
  | some o' =>
    refine h.others o' (List.mem_of_find?_eq_some hfind) (hown o' ?_)
    rw [Db.findOrder, h.orders, List.find?_append, hnone, hfind, Option.none_or]

theorem Apart.sameRequest (h : Apart a.userId (idemKey env a) db db' new)
    (hkeys : ∀ o ∈ new, o.idempotencyKey ≠ idemKey env a)
    (hdrawn : ∀ o ∈ db'.orders, o.id ≠ env.orderId ∧ o.publicRef ≠ env.publicRef) : SameRequest env a db db' := by
  have hnone : new.filter (inTheWay env a) = [] := by
    rw [List.filter_eq_nil_iff]
    intro o ho
    have hids := hdrawn o (h.orders ▸ List.mem_append_right _ ho)
    simp [inTheWay, hids, hkeys o ho]
  refine ⟨h.catalog, h.wallet, h.ledger hkeys, ?_⟩
  rw [h.orders, List.filter_append, hnone, List.append_nil]

/-- **A user is isolated from others but for their keys.** After any calls of
other users, a request whose order is given a new id and reference has the
outcome that it has without them, and is answered with an order of its own
user, exactly when the order that its key has, if any, is that user's, or a
check before the lookup refuses the request. -/
theorem isolated_iff {calls : List PlaceCall} {answer : Except Err ProviderOrderResult} (henv : ReadsCatalog env)
    (hothers : ∀ c ∈ calls, c.args.userId ≠ a.userId)
    (hdrawn : ∀ o ∈ (placeRun db calls).orders, o.id ≠ env.orderId ∧ o.publicRef ≠ env.publicRef) :
    Isolated env answer a db (placeRun db calls) ↔
      (∀ o, (placeRun db calls).findOrder (idemKey env a) = some o → o.userId = a.userId) ∨
        passes env a (placeRun db calls) = false := by
  obtain ⟨new, happart⟩ : ∃ new, Apart a.userId (idemKey env a) db (placeRun db calls) new := placeRun_apart hothers
  constructor
  · intro h
    by_cases hpasses : passes env a (placeRun db calls) = true
    · exact .inl fun o ho => h.own o (outcome_of_found answer hpasses ho)
    · exact .inr (Bool.eq_false_iff.mpr hpasses)
  · rintro (hown | hno)
    · have hsame := happart.sameRequest (happart.key_free hown) hdrawn
      exact ⟨hsame.outcome henv answer, fun o ho => outcome_own hown ho⟩
    · obtain ⟨hsame, e, he⟩ := outcome_of_not_passes happart.catalog henv answer hno
      exact ⟨hsame, fun o ho => by cases he.symm.trans ho⟩

end

/-! ## Two users, one key -/

def twoUsers : Db := { oneService with wallets := fun u => if u = 7 ∨ u = 8 then some ⟨5000000⟩ else none }

/-- The user 8 orders under this key. -/
def otherCall (key : String) : PlaceCall where
  env := { openShop with orderId := "o2", publicRef := "ORD-20260101-00000002" }
  answer := .ok ⟨"9002"⟩
  args := { firstOrder with userId := 8, idempotencyKey := some key }
  keep := false

/-- The user 7 orders under the key `k1`. -/
def ownRequest : OrderArgs := { firstOrder with idempotencyKey := some "k1" }

theorem openShop_readsCatalog : ReadsCatalog openShop := ⟨fun _ h => (by cases h), fun _ => rfl, fun _ => rfl⟩

theorem isolated_iff_of_two_keys :
    Isolated openShop (.ok ⟨"9001"⟩) ownRequest twoUsers (placeRun twoUsers [otherCall "k2"]) := by
  obtain ⟨hdrawn, hfree⟩ : (∀ o ∈ (placeRun twoUsers [otherCall "k2"]).orders,
      o.id ≠ openShop.orderId ∧ o.publicRef ≠ openShop.publicRef) ∧
      (placeRun twoUsers [otherCall "k2"]).findOrder (idemKey openShop ownRequest) = none := by decide +kernel
  refine (isolated_iff openShop_readsCatalog (by simp [otherCall, ownRequest, firstOrder]) hdrawn).mpr (.inl fun o ho => ?_)
  rw [hfree] at ho
  cases ho

/-- With the same key, the user 7 is shown the order of the user 8. -/
theorem shared_key_shows_order :
    ¬ Isolated openShop (.ok ⟨"9001"⟩) ownRequest twoUsers (placeRun twoUsers [otherCall "k1"]) := by
  intro h
  have hshown : (outcome openShop (.ok ⟨"9001"⟩) ownRequest (placeRun twoUsers [otherCall "k1"])).map (·.userId) =
      .ok 8 := by decide +kernel
  cases ho : outcome openShop (.ok ⟨"9001"⟩) ownRequest (placeRun twoUsers [otherCall "k1"]) with
  | error e =>
    rw [ho] at hshown
    cases hshown
  | ok o =>
    rw [ho] at hshown
    have hother : o.userId = 8 := Except.ok.inj hshown
    have hown : o.userId = 7 := h.own o ho
    omega

end Falaron.Core
