/-
Deposits of the second system side by side: both webhooks, redelivered as
often as one likes, and the reconciler, in any interleaving.

Each decides from its own reading of the payment, and none locks the
payment's row. What makes one credit of it all is the ledger's key, which is
the payment's own whoever delivers it, and the wallet's lock, which is held
from before the balance is read until the commit.

A pass of the reconciler is told by its gateway about one payment and, as in
the code, nothing about the others.
-/
import Falaron.StripeWebhook
import Falaron.LedgerConcurrent
import Falaron.Txn.Steady

namespace Falaron.Core

open Py (Decimal)

/-! ## Money in whole units -/

theorem halfAway_intCast (n : Int) : Py.halfAway n = n := by
  have hfloor : ∀ m : Int, ((m : Rat) + 1 / 2).floor = m := by
    intro m
    have hhalf : (1 / 2 : Rat).floor = 0 := by decide +kernel
    rw [add_comm, Rat.floor_add_intCast, hhalf, zero_add]
  rw [Py.halfAway]
  split
  · have := hfloor (-n)
    push_cast at this
    omega
  · exact hfloor n

theorem stored_money (n : Int) : stored (money n) = n := by
  rw [stored, money, Decimal.numeric, Decimal.val_ofNumeric]
  exact halfAway_intCast n

/-- Two amounts that columns hold are added without rounding. -/
theorem stored_add_money {n m : Int} (hn : fits n = true) (hm : fits m = true) :
    stored ((money n).add (money m)) = n + m := by
  have hplus : (money n).plus (money m) = money (n + m) := by
    simp [Decimal.plus, Decimal.rescaled, money, Decimal.ofNumeric]
  have hfix : (money (n + m)).fix = money (n + m) := by
    refine if_pos ?_
    simp only [fits, decide_eq_true_eq] at hn hm
    simp only [money, Decimal.ofNumeric, Decimal.prec]
    omega
  rw [Decimal.add, hplus, hfix, stored_money]

/-! ## Deposits in the tables -/

theorem depositKey_injective {i j : Int} (h : depositKey i = depositKey j) : i = j := by
  have := congrArg String.toList h
  simp only [depositKey, String.toList_append, List.append_cancel_left_eq] at this
  exact Text.int_injective this

/-- The columns of a payment that nobody changes. -/
def Payment.terms (p : Payment) : Int × Int × Int := (p.id, p.userId, p.amount)

/-- The row is the payment's credit. -/
structure IsDeposit (p : Payment) (t : WalletTransaction) : Prop where
  key : t.idempotencyKey = depositKey p.id
  wallet : t.walletId = p.userId
  amount : t.amount = p.amount
  type : t.txType = .deposit

/-- A payment of the database, as it is now or as it was read. -/
def Known (p : Payment) (db : Db) : Prop := p.terms ∈ db.payments.map Payment.terms

/-- The unique columns, and the type of a balance. -/
structure DepositBooks (db : Db) : Prop where
  keys : (db.transactions.map (·.idempotencyKey)).Nodup
  ids : (db.payments.map (·.id)).Nodup
  columns : ∀ u w, db.wallets u = some w → fits w.balance = true

/-- What the rows add to a wallet. -/
def creditedTo (made : List WalletTransaction) (u : Int) : Int := ((made.filter (·.walletId == u)).map (·.amount)).sum

/-- The tables `b` are `a` with the deposits `made`, each wallet credited with its own. -/
structure Deposited (a b : Db) (made : List WalletTransaction) : Prop where
  transactions : b.transactions = a.transactions ++ made
  wallets : ∀ u, b.wallets u = (a.wallets u).map fun w => ⟨w.balance + creditedTo made u⟩
  terms : b.payments.map Payment.terms = a.payments.map Payment.terms
  deposits : ∀ t ∈ made, ∃ p ∈ a.payments, IsDeposit p t

section

variable {a b c db : Db} {made made' : List WalletTransaction} {p q : Payment} {t : WalletTransaction} {reason : String}

theorem IsDeposit.congr (h : IsDeposit p t) (hq : q.terms = p.terms) : IsDeposit q t := by
  simp only [Payment.terms, Prod.mk.injEq] at hq
  obtain ⟨hid, huser, hamount⟩ := hq
  exact ⟨by rw [h.key, hid], by rw [h.wallet, huser], by rw [h.amount, hamount], h.type⟩

theorem Known.of_mem (h : p ∈ db.payments) : Known p db := List.mem_map_of_mem h

/-- With distinct ids a payment is known by its id. -/
theorem Known.unique (hids : (db.payments.map (·.id)).Nodup) (hp : Known p db) (hq : Known q db) (h : q.id = p.id) :
    q.terms = p.terms := by
  obtain ⟨p', hp', hpt⟩ := List.mem_map.mp hp
  obtain ⟨q', hq', hqt⟩ := List.mem_map.mp hq
  have hid : q'.id = p'.id := by
    have h₁ := congrArg Prod.fst hpt
    have h₂ := congrArg Prod.fst hqt
    simp only [Payment.terms] at h₁ h₂
    rw [h₁, h₂, h]
  rw [← hpt, ← hqt, List.inj_on_of_nodup_map hids hq' hp' hid]

theorem creditedTo_append (u : Int) : creditedTo (made ++ made') u = creditedTo made u + creditedTo made' u := by
  simp [creditedTo]

theorem Deposited.refl (a : Db) : Deposited a a [] := by
  refine ⟨by simp, fun u => ?_, rfl, by simp⟩
  cases h : a.wallets u with
  | none => rfl
  | some w => simp [creditedTo]

theorem Deposited.known (h : Deposited a b made) (hp : Known p a) : Known p b := by
  rw [Known, h.terms]
  exact hp

theorem Deposited.trans (h : Deposited a b made) (h' : Deposited b c made') : Deposited a c (made ++ made') where
  transactions := by rw [h'.transactions, h.transactions, List.append_assoc]
  wallets u := by
    rw [h'.wallets, h.wallets]
    cases a.wallets u with
    | none => rfl
    | some w => simp [creditedTo_append, add_assoc]
  terms := h'.terms.trans h.terms
  deposits t ht := by
    rcases List.mem_append.mp ht with ht | ht
    · exact h.deposits t ht
    · obtain ⟨p, hp, hdep⟩ := h'.deposits t ht
      have hknown : Known p a := by
        rw [Known, ← h.terms]
        exact Known.of_mem hp
      obtain ⟨q, hq, hterms⟩ := List.mem_map.mp hknown
      exact ⟨q, hq, hdep.congr hterms⟩

/-- What a credit of a payment posts. -/
theorem Posts.deposit (h : Posts db (depositArgs p reason) true t) (hcol : ∀ u w, db.wallets u = some w → fits w.balance = true) :
    IsDeposit p t ∧ ∃ w, db.wallets p.userId = some w ∧ t.balanceAfter = w.balance + p.amount := by
  obtain ⟨w, hw, rfl, -⟩ := h.row
  have hamount : Core.stored (money p.amount) = p.amount := stored_money _
  refine ⟨⟨rfl, rfl, hamount, rfl⟩, w, hw, ?_⟩
  have hholds := h.stored.2
  simp only [Stmt.holds, Bool.and_eq_true] at hholds
  have hfits : fits p.amount = true := hamount ▸ hholds.1.1
  exact stored_add_money (hcol _ _ hw) hfits

theorem DepositBooks.posted (h : DepositBooks db) (ht : Posts db (depositArgs p reason) true t) :
    DepositBooks (db.posted t) where
  keys := ht.keys h.keys
  ids := h.ids
  columns u w hw := by
    rw [Db.posted_wallets] at hw
    split at hw
    · obtain ⟨_, _, rfl⟩ := Option.map_eq_some_iff.mp hw
      exact ht.stored.1
    · exact h.columns u w hw

theorem Deposited.single (h : DepositBooks db) (hp : Known p db) (ht : Posts db (depositArgs p reason) true t) :
    Deposited db (db.posted t) [t] where
  transactions := rfl
  wallets u := by
    obtain ⟨hdep, w, hw, hafter⟩ := ht.deposit h.columns
    rw [Db.posted_wallets, hdep.wallet]
    split
    · next hu =>
      rw [hu, hw]
      simp [creditedTo, hdep.wallet, hdep.amount, hafter]
    · next hu =>
      have hne : ¬ p.userId = u := fun he => hu he.symm
      cases db.wallets u with
      | none => rfl
      | some w => simp [creditedTo, hdep.wallet, hne]
  terms := rfl
  deposits t' ht' := by
    obtain rfl := List.mem_singleton.mp ht'
    obtain ⟨q, hq, hterms⟩ := List.mem_map.mp hp
    exact ⟨q, hq, (ht.deposit h.columns).1.congr hterms⟩

end

/-! ## A change of a payment's row -/

/-- The statement changes payments only, and none of their terms. -/
def Marks (w : Stmt) : Prop := ∃ id f, (∀ p, (f p).terms = p.terms) ∧ w.apply = fun db => db.updatePayment id f

theorem marks_fail (id : Int) : Marks (Stmt.failPayment id) := ⟨id, .markFailed, fun _ => rfl, rfl⟩

theorem marks_verify (id : Int) (txnId : Option (Option String)) : Marks (Stmt.verifyPayment id txnId) :=
  ⟨id, .markVerified txnId, fun _ => rfl, rfl⟩

section

variable {a b db : Db} {made : List WalletTransaction} {w : Stmt}

theorem Marks.terms (h : Marks w) (db : Db) :
    (w.apply db).payments.map Payment.terms = db.payments.map Payment.terms := by
  obtain ⟨id, f, hf, hw⟩ := h
  rw [hw]
  simp only [Db.updatePayment, List.map_map]
  refine List.map_congr_left fun q _ => ?_
  simp only [Function.comp]
  split
  · exact hf q
  · rfl

theorem Marks.ledger (h : Marks w) (db : Db) :
    (w.apply db).wallets = db.wallets ∧ (w.apply db).transactions = db.transactions := by
  obtain ⟨id, f, -, hw⟩ := h
  rw [hw]
  exact ⟨rfl, rfl⟩

theorem Marks.books (h : Marks w) (hdb : DepositBooks db) : DepositBooks (w.apply db) where
  keys := (h.ledger db).2 ▸ hdb.keys
  ids := by
    have hids : ∀ d : Db, d.payments.map (·.id) = (d.payments.map Payment.terms).map (·.1) := fun d => by
      simp [Payment.terms]
    rw [hids, h.terms, ← hids]
    exact hdb.ids
  columns u v hv := hdb.columns u v ((h.ledger db).1 ▸ hv)

theorem Marks.deposited (h : Marks w) (hab : Deposited a b made) : Deposited a (w.apply b) made where
  transactions := (h.ledger b).2.trans hab.transactions
  wallets u := by rw [(h.ledger b).1, hab.wallets]
  terms := (h.terms b).trans hab.terms
  deposits := hab.deposits

end

/-! ## One transaction while others commit -/

/-- What deposits keep: the tables grow by deposits, and a locked row is as it was. -/
def depositRely : Txn.Rely Db Row where
  inv := DepositBooks
  change a b := ∃ made, Deposited a b made
  same := ledgerSame
  change_refl a := ⟨[], .refl a⟩
  change_trans := by
    rintro _ _ _ ⟨made, h⟩ ⟨made', h'⟩
    exact ⟨made ++ made', h.trans h'⟩
  same_refl := (ledgerRely fun _ => True).same_refl
  same_trans := (ledgerRely fun _ => True).same_trans

/-- A transaction that has made the rows of `made` and marked payments: it holds
the rows' wallets and keys, and keeps the books whatever the others commit. -/
structure Depositing (t : Local) (db : Db) (made : List WalletTransaction) : Prop where
  view : ∀ db', (t.view db').transactions = db'.transactions ++ made ∧ (t.view db').wallets = (db'.postedAll made).wallets
  wallets : ∀ x ∈ made, t.locks (.wallet x.walletId)
  keys : ∀ x ∈ made, t.locks (.transactionKey x.idempotencyKey)
  sound : ∀ db', depositRely.Interf t.locks db db' → DepositBooks (t.view db') ∧ Deposited db' (t.view db') made

section

variable {t t' : Local} {db db' : Db} {made : List WalletTransaction} {p : Payment} {reason : String}

theorem Depositing.start (db : Db) : Depositing {} db [] :=
  ⟨fun _ => ⟨(List.append_nil _).symm, rfl⟩, by simp, by simp, fun db' hi => ⟨hi.inv, .refl db'⟩⟩

theorem Depositing.sameWrites (h : Depositing t db made) (ht : SameWrites t t') (hi : depositRely.Interf t.locks db db') :
    Depositing t' db' made where
  view d := by
    simp only [Txn.Local.view, ht.pending]
    exact h.view d
  wallets x hx := ht.locks _ (h.wallets x hx)
  keys x hx := ht.locks _ (h.keys x hx)
  sound d hd := by
    simp only [Txn.Local.view, ht.pending]
    exact h.sound d (hi.trans (hd.mono ht.locks))

/-- A row is the same in two views where it is in the databases. -/
theorem Depositing.same (h : Depositing t db made) {r : Row} {x y : Db} (hs : ledgerSame r x y) :
    ledgerSame r (t.view x) (t.view y) := by
  cases r with
  | wallet u =>
    have hall : ledgerSame (.wallet u) (x.postedAll made) (y.postedAll made) := ledgerSame.postedAll hs made
    simp only [ledgerSame, (h.view x).2, (h.view y).2]
    exact hall
  | transactionKey k =>
    have hk : x.findTransaction k = y.findTransaction k := hs
    simp only [ledgerSame, Db.findTransaction, (h.view x).1, (h.view y).1, List.find?_append]
    simp only [Db.findTransaction] at hk
    rw [hk]
  | _ => trivial

/-- A credit joins what the transaction holds. -/
theorem Depositing.postedTx (h : Depositing t db made) {tx : WalletTransaction} {db₁ db₂ db₃ : Db}
    (hp : ∀ x, (∃ m, Deposited db x m) → Known p x) (h₂ : depositRely.Interf t.locks db db₂)
    (hpost : Posts (t.view db₂) (depositArgs p reason) true tx)
    (h₃ : depositRely.Interf (t.postedTx tx db₁).locks db₂ db₃) :
    Depositing (t.postedTx tx db₁) db₃ (made ++ [tx]) where
  view d := by
    simp only [Txn.Local.view_postedTx, Db.posted_transactions, (h.view d).1, List.append_assoc, Db.postedAll_append,
      Db.postedAll_singleton, true_and]
    funext u
    rw [Db.posted_wallets, Db.posted_wallets, (h.view d).2]
  wallets x hx := by
    rw [Txn.Local.locks_postedTx]
    rcases List.mem_append.mp hx with hx | hx
    · exact .inr (.inr (h.wallets x hx))
    · obtain rfl := List.mem_singleton.mp hx
      exact .inr (.inl rfl)
  keys x hx := by
    rw [Txn.Local.locks_postedTx]
    rcases List.mem_append.mp hx with hx | hx
    · exact .inr (.inr (h.keys x hx))
    · obtain rfl := List.mem_singleton.mp hx
      exact .inl rfl
  sound d hi := by
    have h₃' := h₃.trans hi
    have hold := h₂.trans (h₃'.mono fun r hr => Txn.Local.locks_postedTx.mpr (.inr (.inr hr)))
    obtain ⟨hbooks, hdep⟩ := h.sound d hold
    -- the wallet and the key are locked, so the credit posts on `d` as it did on `db₂`
    have hwallet : ledgerSame (.wallet p.userId) db₂ d := h₃'.same _ (Txn.Local.locks_postedTx.mpr
      (.inr (.inl (congrArg Row.wallet hpost.names.1.symm))))
    have hkey : ledgerSame (.transactionKey (depositKey p.id)) db₂ d := h₃'.same _ (Txn.Local.locks_postedTx.mpr
      (.inl (congrArg Row.transactionKey hpost.names.2.symm)))
    have hpost' : Posts (t.view d) (depositArgs p reason) true tx := hpost.congr (Eq.symm (h.same hwallet)) (Eq.symm (h.same hkey))
    have hknown : Known p (t.view d) := hdep.known (hp d hold.change)
    rw [Txn.Local.view_postedTx]
    exact ⟨hbooks.posted hpost', hdep.trans (.single hbooks hknown hpost')⟩

/-- A mark of a payment joins them too. -/
theorem Depositing.wrote (h : Depositing t db made) {w : Stmt} (hw : Marks w) : Depositing (t.wrote w) db made where
  view d := by
    rw [Txn.Local.view_wrote, (hw.ledger _).1, (hw.ledger _).2]
    exact h.view d
  wallets x hx := (Txn.Local.locks_wrote t).mpr (.inr (h.wallets x hx))
  keys x hx := (Txn.Local.locks_wrote t).mpr (.inr (h.keys x hx))
  sound d hi := by
    obtain ⟨hbooks, hdep⟩ := h.sound d (hi.mono fun r hr => (Txn.Local.locks_wrote t).mpr (.inr hr))
    rw [Txn.Local.view_wrote]
    exact ⟨hw.books hbooks, hw.deposited hdep⟩

/-- Such a transaction may commit. -/
theorem Depositing.ends (h : Depositing t db made) : Txn.ends depositRely t db := by
  intro d hi
  obtain ⟨hbooks, hdep⟩ := h.sound d hi
  refine ⟨hbooks, ⟨made, hdep⟩, fun r hr => ?_⟩
  have hnone : ledgerSame r d (d.postedAll made) := by
    refine postedAll_same (fun x hx hre => ?_) fun x hx hre => ?_
    · exact hr (hre ▸ h.wallets x hx)
    · exact hr (hre ▸ h.keys x hx)
  cases r with
  | wallet u =>
    show d.wallets u = (t.view d).wallets u
    rw [(h.view d).2]
    exact hnone
  | transactionKey k =>
    show d.findTransaction k = (t.view d).findTransaction k
    have hall : d.findTransaction k = (d.postedAll made).findTransaction k := hnone
    rw [hall]
    simp only [Db.findTransaction, Db.postedAll_transactions, (h.view d).1]
  | _ => trivial

end

/-- A transaction between two steps: its rows are deposits, what it has staged
marks payments, and it has read the payments `ps`. -/
structure Between (ps : List Payment) (t : Local) (db : Db) : Prop where
  books : DepositBooks db
  known : ∀ p ∈ ps, Known p db
  staged : ∀ w ∈ t.staged, Marks w
  held : ∃ made, Depositing t db made

section

variable {ps qs : List Payment} {t t' : Local} {db db' : Db} {p : Payment} {reason : String} {w : Stmt}

theorem Between.interf (h : Between ps t db) (hi : depositRely.Interf t.locks db db') : Between ps t db' := by
  obtain ⟨made, hmade⟩ := h.held
  obtain ⟨m, hm⟩ := hi.change
  exact ⟨hi.inv, fun p hp => hm.known (h.known p hp), h.staged, made, hmade.sameWrites ⟨rfl, rfl, fun _ hr => hr⟩ hi⟩

theorem Between.sameWrites (h : Between ps t db) (ht : SameWrites t t') (hi : depositRely.Interf t.locks db db') :
    Between ps t' db' := by
  obtain ⟨made, hmade⟩ := h.held
  obtain ⟨m, hm⟩ := hi.change
  exact ⟨hi.inv, fun p hp => hm.known (h.known p hp), ht.staged ▸ h.staged, made, hmade.sameWrites ht hi⟩

theorem between_steady (ps : List Payment) : Txn.Steady depositRely (Between ps) where
  inv h := h.books
  interf hi h := h.interf hi
  seen _ h := h.sameWrites ⟨rfl, rfl, fun _ hr => hr⟩ (.refl h.books)

theorem Between.mono (h : Between ps t db) (hq : ∀ p ∈ qs, p ∈ ps) : Between qs t db :=
  ⟨h.books, fun p hp => h.known p (hq p hp), h.staged, h.held⟩

theorem Between.clear (h : Between ps t db) : Between ps { t with staged := [] } db := by
  obtain ⟨made, hmade⟩ := h.held
  exact ⟨h.books, h.known, by simp, made, hmade.view, hmade.wallets, hmade.keys, hmade.sound⟩

/-- What the transaction reads of a payment stays known. -/
theorem Between.read (h : Between ps t db) (hp : p ∈ (t.view db).payments) : Known p db := by
  obtain ⟨made, hmade⟩ := h.held
  have hview := (hmade.sound db (.refl h.books)).2
  rw [Known, ← hview.terms]
  exact Known.of_mem hp

/-! ## The rules -/

variable {guard : List Db → Row → Db → Prop} {E : Err → Local → Db → Prop}

theorem safe_credit {Q : WalletTransaction → Local → Db → Prop} (h : Between ps t db) (hst : t.staged = []) (hp : p ∈ ps)
    (hE : ∀ e t' db', Between ps t' db' → E e t' db')
    (hQ : ∀ x t' db', Between ps t' db' → t'.staged = [] → Q x t' db') :
    (credit (depositArgs p reason)).safe depositRely guard Q E t db := by
  obtain ⟨made, hmade⟩ := h.held
  refine safe_executeTransaction hst h.books (fun {x y} hs => ?_) (fun e t' db' ht hi => ?_) (fun x t' db' ht hi => ?_)
    fun x db₁ db₂ h₂ hpost db₃ h₃ => ?_
  · exact Eq.symm (hmade.same (r := .wallet p.userId) hs)
  · exact hE e t' db' (h.sameWrites ht hi)
  · exact hQ x t' db' (h.sameWrites ht hi) (ht.staged.trans hst)
  · have hknown : ∀ y, (∃ m, Deposited db y m) → Known p y := fun y ⟨m, hm⟩ => hm.known (h.known p hp)
    have hall : ∀ q ∈ ps, Known q db₃ := fun q hq => by
      obtain ⟨m, hm⟩ := depositRely.change_trans h₂.change h₃.change
      exact hm.known (h.known q hq)
    have hst' : (t.postedTx x db₁).staged = [] := hst
    exact hQ x _ db₃ ⟨h₃.inv, hall, by rw [hst']; simp, _, hmade.postedTx hknown h₂ hpost h₃⟩ hst'

theorem execAll_marks {post : Local → Db → Prop} {ws : List Stmt} (h : Between ps t db) (hst : t.staged = [])
    (hws : ∀ w ∈ ws, Marks w) (hpost : ∀ t' db', Between ps t' db' → t'.staged = [] → post t' db') :
    Txn.execAll depositRely guard post ws t db := by
  induction ws generalizing t db with
  | nil => exact hpost t db h hst
  | cons w ws ih =>
    intro db' hi _ _
    have h' := h.interf hi
    obtain ⟨made, hmade⟩ := h'.held
    refine ih ⟨h'.books, h'.known, ?_, made, hmade.wrote (hws w List.mem_cons_self)⟩ hst
      fun v hv => hws v (List.mem_cons_of_mem _ hv)
    rw [Txn.Local.staged_wrote, hst]
    simp

/-- A flush writes the marks, and nothing is staged any more. -/
theorem safe_flush {Q : Unit → Local → Db → Prop} (h : Between ps t db)
    (hQ : ∀ t' db', Between ps t' db' → t'.staged = [] → Q () t' db') :
    (flush : M Unit).safe depositRely guard Q E t db := by
  refine execAll_marks h.clear rfl h.staged fun t' db' h' hst => ?_
  exact fun db'' hi => hQ t' db'' (h'.interf hi) hst

theorem safe_mark {Q : Unit → Local → Db → Prop} (h : Between ps t db) (hw : Marks w)
    (hQ : ∀ t' db', Between ps t' db' → Q () t' db') :
    (.write w : M Unit).safe depositRely guard Q E t db := by
  obtain ⟨made, hmade⟩ := h.held
  have h' : Between ps { t with staged := t.staged ++ [w] } db := by
    refine ⟨h.books, h.known, fun v hv => ?_, made, hmade.view, hmade.wallets, hmade.keys, hmade.sound⟩
    rcases List.mem_append.mp hv with hv | hv
    · exact h.staged v hv
    · exact List.mem_singleton.mp hv ▸ hw
  exact fun db' hi => hQ _ db' (h'.interf hi)

theorem safe_lift {α : Type} {x : Except Err α} {Q : α → Local → Db → Prop} (h : Between ps t db)
    (hE : ∀ e t' db', Between ps t' db' → E e t' db') (hQ : ∀ a db', Between ps t db' → Q a t db') :
    (lift x).safe depositRely guard Q E t db := by
  cases x with
  | error e => exact (between_steady ps).throw h (hE e)
  | ok a => exact (between_steady ps).pure h (hQ a)

theorem safe_findPayment {provider : Option String} {reference : Py.Json} {Q : Option Payment → Local → Db → Prop}
    (h : Between ps t db) (hE : ∀ e t' db', Between ps t' db' → E e t' db')
    (hQ : ∀ o t' db', Between (o.toList ++ ps) t' db' → t'.staged = t.staged → Q o t' db') :
    (findPayment provider reference).safe depositRely guard Q E t db := by
  have hnone : ∀ t' db', Between ps t' db' → t'.staged = t.staged → Q none t' db' := fun t' db' h' => hQ none t' db' h'
  unfold findPayment
  split
  · next r =>
    refine (between_steady ps).bind h ((between_steady ps).query h fun db' db'' t' h' hi h'' hst => ?_)
    unfold scalarOneOrNone
    split
    · exact (between_steady ps).pure h'' fun d hd => hnone t' d hd hst
    · next p hl =>
      have hmem : p ∈ ((t'.view db').paymentsBy provider r) := hl ▸ List.mem_singleton_self p
      have hread := h'.read (List.mem_of_mem_filter hmem)
      obtain ⟨m, hm⟩ := hi.change
      have hboth : Between (p :: ps) t' db'' := by
        refine ⟨h''.books, fun q hq => ?_, h''.staged, h''.held⟩
        rcases List.mem_cons.mp hq with rfl | hq
        · exact hm.known hread
        · exact h''.known q hq
      exact (between_steady _).pure hboth fun d hd => hQ (some p) t' d hd hst
    · exact (between_steady ps).throw h'' (hE _)
  · exact (between_steady ps).pure h fun db' h' => hnone t db' h' rfl
  · exact (between_steady ps).throw h (hE _)

/-! ## The deliverers -/

variable {repr : Py.Json → String} {info : PaymentInfo} {k : WebhookKind}

/-- A captured event ends between two steps, or raises. -/
theorem safe_processCaptured (h : Between ps t db) (hst : t.staged = []) :
    (processCaptured repr k info).safe depositRely guard (fun _ => Between []) (fun _ _ _ => True) t db := by
  unfold processCaptured
  refine (between_steady ps).bind h (safe_findPayment h (fun _ _ _ _ => trivial) fun o t₁ db₁ h₁ hst₁ => ?_)
  cases o with
  | none => exact (between_steady _).pure h₁ fun db' h' => h'.mono (by simp)
  | some p =>
    have hJ := between_steady (p :: ps)
    have hp : p ∈ p :: ps := List.mem_cons_self
    refine hJ.bind h₁ (hJ.require h₁ (fun _ _ _ => trivial) fun db₂ h₂ => ?_)
    cases info.amount with
    | none => exact hJ.bind h₂ (hJ.throw h₂ fun _ _ _ => trivial)
    | some received =>
      refine hJ.bind h₂ (hJ.pure h₂ fun db₃ h₃ => hJ.bind h₃ (hJ.require h₃ (fun _ _ _ => trivial) fun db₄ h₄ => ?_))
      have hrest : ∀ db₅, Between (p :: ps) t₁ db₅ → Txn.Prog.safe depositRely guard (fun _ => Between []) (fun _ _ _ => True) (do
          let _ ← credit (depositArgs p (k.deposit ++ info.providerTxnId.text repr))
          let txnId ← lift (columnText info.providerTxnId)
          .write (Stmt.verifyPayment p.id (some txnId))
          flush) t₁ db₅ := by
        intro db₅ h₅
        refine hJ.bind h₅ (safe_credit h₅ (hst₁.trans hst) hp (fun _ _ _ _ => trivial) fun x t₂ db₆ h₆ _ => ?_)
        refine hJ.bind h₆ (safe_lift h₆ (fun _ _ _ _ => trivial) fun txnId db₇ h₇ => ?_)
        refine hJ.bind h₇ (safe_mark h₇ (marks_verify _ _) fun t₃ db₈ h₈ => ?_)
        exact safe_flush h₈ fun t' db' h' _ => h'.mono (by simp)
      simp only [Txn.Prog.bind_eq] at hrest ⊢
      split
      · refine hJ.bind h₄ ?_
        rw [checkCurrency]
        refine hJ.bind h₄ (safe_lift h₄ (fun _ _ _ _ => trivial) fun c db₅ h₅ => ?_)
        exact hJ.require h₅ (fun _ _ _ => trivial) fun db₆ h₆ => hrest db₆ h₆
      · exact hrest db₄ h₄

theorem safe_processStripe (h : Between ps t db) (hst : t.staged = []) :
    (processStripe repr info).safe depositRely guard (fun _ => Between []) (fun _ _ _ => True) t db := by
  unfold processStripe
  split
  · refine (between_steady ps).bind h (safe_findPayment h (fun _ _ _ _ => trivial) fun o t₁ db₁ h₁ hst₁ => ?_)
    cases o with
    | none => exact (between_steady _).pure h₁ fun db' h' => h'.mono (by simp)
    | some p =>
      have hJ := between_steady (p :: ps)
      refine hJ.bind h₁ (safe_mark h₁ (marks_fail _) fun t₂ db₂ h₂ => ?_)
      exact safe_flush h₂ fun t' db' h' _ => h'.mono (by simp)
  · exact safe_processCaptured h hst

theorem safe_processRazorpay (h : Between ps t db) (hst : t.staged = []) :
    (processRazorpay repr info).safe depositRely guard (fun _ => Between []) (fun _ _ _ => True) t db := by
  unfold processRazorpay
  split
  · exact (between_steady ps).pure h fun db' h' => h'.mono (by simp)
  · exact safe_processCaptured h hst

/-- What a delivery is read as is only used: it reads and writes nothing. -/
theorem safe_readDelivery {g : GatewayEnv} {d : Delivery} {signed : Except InitData.Exc Bool} {name : String}
    {parse : Py.Json → Except Err (Option PaymentInfo)} {Q : Option PaymentInfo → Local → Db → Prop}
    (h : Between ps t db) (hQ : ∀ o db', Between ps t db' → Q o t db') :
    (readDelivery g d signed name parse).safe depositRely guard Q (fun _ _ _ => True) t db := by
  unfold readDelivery
  split
  · exact (between_steady ps).throw h fun _ _ _ => trivial
  · exact (between_steady ps).throw h fun _ _ _ => trivial
  · split
    · exact (between_steady ps).pure h fun db' h' => hQ none db' h'
    · exact safe_lift h (fun _ _ _ _ => trivial) fun o db' h' => hQ o db' h'

/-- One payment of a pass: a credit, a mark or nothing. -/
theorem safe_reconcile {check : Payment → Except Err CheckResult} (h : Between ps t db) (hp : p ∈ ps)
    {Q : CheckResult → Local → Db → Prop} (hE : ∀ e t' db', Between ps t' db' → E e t' db')
    (hQ : ∀ r t' db', Between ps t' db' → Q r t' db') :
    (reconcile check p).safe depositRely guard Q E t db := by
  have hJ := between_steady ps
  refine hJ.bind h (safe_lift h hE fun r db₁ h₁ => ?_)
  cases r with
  | pending => exact hJ.pure h₁ fun db' h' => hQ _ t db' h'
  | failed =>
    refine hJ.bind h₁ (safe_mark h₁ (marks_fail _) fun t₂ db₂ h₂ => ?_)
    exact hJ.pure h₂ fun db' h' => hQ _ t₂ db' h'
  | verified =>
    refine hJ.bind h₁ (hJ.bind h₁ (safe_flush h₁ fun t₂ db₂ h₂ hst => ?_))
    refine hJ.bind h₂ (safe_credit h₂ hst hp hE fun x t₃ db₃ h₃ _ => ?_)
    refine hJ.bind h₃ (safe_mark h₃ (marks_verify _ _) fun t₄ db₄ h₄ => ?_)
    refine safe_flush h₄ fun t₅ db₅ h₅ _ => ?_
    exact hJ.pure h₅ fun db' h' => hQ _ t₅ db' h'

theorem safe_runOnce {check : Payment → Except Err CheckResult} {cutoff : Time} (h : Between [] t db) :
    (runOnce check cutoff).safe depositRely guard (fun _ => Between []) (fun _ _ _ => True) t db := by
  unfold runOnce
  refine (between_steady []).bind h ((between_steady []).query h fun db' db'' t' h' hi h'' _ => ?_)
  have hknown : Between ((t'.view db').unsettledPayments cutoff) t' db'' := by
    obtain ⟨m, hm⟩ := hi.change
    refine ⟨h''.books, fun p hp => ?_, h''.staged, h''.held⟩
    exact hm.known (h'.read (List.mem_of_mem_filter (List.mem_of_mem_take hp)))
  have hJ := between_steady ((t'.view db').unsettledPayments cutoff)
  split
  · exact hJ.pure hknown fun d hd => hd.mono (by simp)
  refine hJ.bind hknown (hJ.foldlM hknown (fun p hp r t₁ db₁ h₁ => ?_) fun r t₁ db₁ h₁ => ?_)
  · refine hJ.bind h₁ (Txn.Prog.safe_attempt ?_)
    exact safe_reconcile h₁ hp (fun e t₂ db₂ h₂ => hJ.pure h₂ fun d hd => hd) fun x t₂ db₂ h₂ => hJ.pure h₂ fun d hd => hd
  · refine hJ.bind h₁ (safe_flush h₁ fun t₂ db₂ h₂ _ => ?_)
    exact hJ.pure h₂ fun d hd => hd.mono (by simp)

end

/-! ## Every interleaving -/

/-- A delivery, or a pass of the reconciler and what the gateway tells it about one payment. -/
inductive DepositCall where
  | razorpay (g : GatewayEnv) (d : Delivery)
  | stripe (g : GatewayEnv) (d : Delivery)
  | reconciler (id : Int) (answer : Except Err CheckResult) (cutoff : Time)

namespace DepositCall

def prog : DepositCall → M Unit
  | .razorpay g d => processPaymentWebhook g d
  | .stripe g d => processStripeWebhook g d
  | .reconciler id answer cutoff => do
    let _ ← runOnce (fun p => if p.id = id then answer else checkProvider p) cutoff

theorem safe (c : DepositCall) {db : Db} (hdb : DepositBooks db) :
    c.prog.Safe depositRely (fun _ _ _ => True) {} db := by
  have h : Between [] ({} : Local) db := ⟨hdb, by simp, by simp, [], .start db⟩
  have hbetween : c.prog.safe depositRely (fun _ _ _ => True) (fun _ => Between []) (fun _ _ _ => True) {} db := by
    cases c with
    | razorpay g d =>
      refine (between_steady []).bind h (safe_readDelivery h fun o db' h' => ?_)
      cases o with
      | none => exact (between_steady []).pure h' fun _ h'' => h''
      | some info => exact safe_processRazorpay h' rfl
    | stripe g d =>
      refine (between_steady []).bind h (safe_readDelivery h fun o db' h' => ?_)
      cases o with
      | none => exact (between_steady []).pure h' fun _ h'' => h''
      | some info => exact safe_processStripe h' rfl
    | reconciler id answer cutoff =>
      refine (between_steady []).bind h (Txn.Prog.safe_mono (fun _ t' db' _ h' => ?_) (fun _ _ _ _ h' => h') hdb
        (safe_runOnce h))
      exact (between_steady []).pure h' fun _ h'' => h''
  refine Txn.Prog.safe_mono (fun _ t' db' _ h' => ?_) (fun _ _ _ _ h' => h') hdb hbetween
  refine execAll_marks h'.clear rfl h'.staged fun t'' db'' h'' _ => ?_
  obtain ⟨made, hmade⟩ := h''.held
  exact hmade.ends

end DepositCall

/-- **A deposit is credited once.** In every state of every interleaving of
webhooks and passes, whichever of them roll back, the ledger has one row at
most under a payment's key; what has been added to it is the payment's own
credit, of its amount, on its user's wallet; and each wallet is where it was
with the amounts of its new rows. -/
theorem deposits_credit_once {ι : Type} [DecidableEq ι] {start : Db} {s : Txn.Sys ι DepositCall Db Row Err Ext}
    (hstart : DepositBooks start)
    (h : Txn.Sys.Reach DepositCall.prog (fun _ => True) (fun _ _ _ _ => True) { db := start } s) :
    ∃ made, Deposited start s.db made ∧ ∀ p ∈ start.payments,
      (s.db.transactions.filter (·.idempotencyKey == depositKey p.id)).length ≤ 1 ∧
        ∀ t ∈ made, t.idempotencyKey = depositKey p.id → IsDeposit p t := by
  have hgood : ({ db := start } : Txn.Sys ι DepositCall Db Row Err Ext).Good depositRely (fun _ _ _ _ => True) :=
    .idle_start hstart
  have hcode : ∀ c : DepositCall, True → ∀ db, depositRely.inv db → c.prog.Safe depositRely (fun _ _ _ => True) {} db :=
    fun c _ db hdb => c.safe hdb
  obtain ⟨made, hmade⟩ := Txn.Sys.Reach.change hgood hcode h
  have hbooks : DepositBooks s.db := (Txn.Sys.Reach.good hgood hcode h).inv
  refine ⟨made, hmade, fun p hp => ⟨?_, fun t ht hkey => ?_⟩⟩
  · have hcount := List.nodup_iff_count_le_one.mp hbooks.keys (depositKey p.id)
    rw [List.count, List.countP_map, List.countP_eq_length_filter] at hcount
    exact hcount
  · obtain ⟨q, hq, hdep⟩ := hmade.deposits t ht
    have hid := depositKey_injective (hkey.symm.trans hdep.key)
    exact hdep.congr (Known.unique hstart.ids (.of_mem hq) (.of_mem hp) hid)

/-! ## Two deliveries at once -/

/-- The same event is delivered twice; the second transaction has looked for the
key when the first one commits it, then gets the wallet and is refused. -/
def twice : List (Txn.Act Nat DepositCall) :=
  [.start 0 (.stripe testGateway rupeesPaid), .start 1 (.stripe testGateway rupeesPaid), .step 1, .step 1] ++
    List.replicate 12 (.step 0) ++ List.replicate 5 (.step 1)

theorem twoPayments_books : DepositBooks twoPayments := by
  refine ⟨by decide, by decide, fun u w hw => ?_⟩
  simp only [twoPayments] at hw
  split at hw
  · cases hw
    decide
  split at hw
  · cases hw
    decide
  · cases hw

theorem twice_credits_once : ∃ s made, Txn.Sys.exec DepositCall.prog { db := twoPayments } twice = some s ∧
    Deposited twoPayments s.db made ∧ made.length = 1 ∧ (s.db.wallets 7).map (·.balance) = some 5000000 ∧
    (s.db.transactions.filter (·.idempotencyKey == depositKey rupeePayment.id)).length ≤ 1 := by
  have hrun : (Txn.Sys.exec DepositCall.prog { db := twoPayments } twice).map (fun s => (s.db.transactions.length,
      (s.db.wallets 7).map (·.balance))) = some (1, some 5000000) := by
    have hcode : ∀ i c, .start i c ∈ twice → c.prog = processStripe testGateway.repr rupeesInfo := by
      intro i c hc
      obtain ⟨-, rfl⟩ | ⟨-, rfl⟩ : i = 0 ∧ c = .stripe testGateway rupeesPaid ∨ i = 1 ∧ c = .stripe testGateway rupeesPaid := by
        simpa [twice] using hc
      · exact rupees_processed
      · exact rupees_processed
    rw [Txn.Sys.exec_congr DepositCall.prog (fun _ => processStripe testGateway.repr rupeesInfo) hcode]
    decide +kernel
  obtain ⟨s, hs, hfacts⟩ := Option.map_eq_some_iff.mp hrun
  obtain ⟨hlength, hbalance⟩ := Prod.mk.inj hfacts
  have hreach : Txn.Sys.Reach DepositCall.prog (fun _ => True) (fun _ _ _ _ => True) { db := twoPayments } s :=
    Txn.Sys.exec_reach _ .refl (fun _ _ _ => trivial) hs
  obtain ⟨made, hmade, hall⟩ := deposits_credit_once twoPayments_books hreach
  have hmem : rupeePayment ∈ twoPayments.payments := List.mem_cons_self
  refine ⟨s, made, hs, hmade, ?_, hbalance, (hall _ hmem).1⟩
  have htx : s.db.transactions = [] ++ made := hmade.transactions
  rw [htx] at hlength
  exact hlength

end Falaron.Core
