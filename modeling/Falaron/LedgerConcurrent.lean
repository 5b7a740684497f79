/-
The ledger of the second system under any interleaving of transactions.

The arithmetic holds whatever the schedule, for amounts that are whole
ten-thousandths: a call locks the wallet before it reads the balance, so the
rows of a wallet continue each other. The replay promise does not: the key is
looked up before the lock is taken, and a call that looked before another
transaction committed the key is refused by the unique column. `refused_iff`
says that nothing else makes the key refuse it.
-/
import Falaron.LedgerAudit
import Falaron.Txn.Each

namespace Falaron.Core

open Py (Decimal)
open Py.Decimal (Exact)

/-! ## Whole amounts -/

/-- A whole number of ten-thousandths, which a money column keeps exactly. -/
def Whole (a : Decimal) : Prop := ∃ n : Int, a.val * 10 ^ moneyScale = n

theorem exact_of_units {x : Rat} {m : Int} (h : x * 10 ^ moneyScale = m) (hm : m.natAbs < 10 ^ Decimal.prec) :
    Exact x := by
  refine ⟨m, -4, hm, ?_⟩
  rw [← h]
  simp only [moneyScale]
  norm_num
  ring

theorem stored_of_units {a : Decimal} {m : Int} (h : a.val * 10 ^ moneyScale = m) (hm : 0 ≤ m) : stored a = m := by
  rw [stored, Decimal.numeric, h]
  exact Py.halfAway_int hm

/-- What a call adds to the balance. -/
def LedgerCall.signed (c : LedgerCall) : Int :=
  if c.isCredit then stored c.args.amount else -stored c.args.amount

/-- The row is the call's, on the balance it found. -/
structure Made (c : LedgerCall) (t : WalletTransaction) : Prop where
  row : t = c.args.row c.isCredit t.balanceBefore
  after : t.balanceAfter = t.balanceBefore + c.signed

section

variable {db db' : Db} {a : TxArgs} {c : LedgerCall} {t : WalletTransaction} {n : Int}

theorem units_pos {d : Decimal} {m : Int} (h : d.val * 10 ^ moneyScale = m) (hd : 0 < d.coeff) : 0 < m := by
  have := Decimal.val_pos.2 hd
  have : (0 : Rat) < m := by rw [← h]; positivity
  exact_mod_cast this

theorem whole_credit (hn : 0 ≤ n) (hw : Whole a.amount) (hpos : 0 < a.amount.coeff)
    (hfit : fits (stored (balanceAfter true (money n) a.amount)) = true) :
    stored (balanceAfter true (money n) a.amount) = n + stored a.amount := by
  obtain ⟨m, hm⟩ := hw
  have hsum : ((money n).val + a.amount.val) * 10 ^ moneyScale = ((n + m : Int) : Rat) := by
    rw [add_mul, money_scaled, hm]
    push_cast
    rfl
  rcases Nat.lt_or_ge (n + m).natAbs (10 ^ Decimal.prec) with hlt | hge
  · exact stored_add hn hpos (exact_of_units hsum hlt)
  · -- a sum of more than 28 digits is more than the column takes
    have hm0 := units_pos hm hpos
    have hbig : (10 : Rat) ^ 24 ≤ ((money n).plus a.amount).val := by
      have : ((10 ^ 28 : Int) : Rat) ≤ (n + m : Int) := by
        simp only [Decimal.prec] at hge
        exact_mod_cast (by omega : (10 ^ 28 : Int) ≤ n + m)
      rw [← hsum] at this
      simp only [moneyScale] at this
      push_cast at this
      rw [Decimal.val_plus]
      linarith
    have hfix := Decimal.le_fix ⟨1, 24, by decide, by norm_num⟩ (by positivity) hbig
    have hst : (10 ^ 28 : Int) ≤ stored (balanceAfter true (money n) a.amount) := by
      refine Py.le_halfAway (by positivity) ?_
      simp only [balanceAfter, if_true, Decimal.add, moneyScale]
      push_cast
      linarith
    simp only [fits, decide_eq_true_eq] at hfit
    omega

theorem whole_debit (hn : 0 ≤ n) (hf : fits n = true) (hw : Whole a.amount) (hpos : 0 < a.amount.coeff)
    (hcov : 0 ≤ (balanceAfter false (money n) a.amount).coeff) :
    stored (balanceAfter false (money n) a.amount) = n - stored a.amount := by
  obtain ⟨m, hm⟩ := hw
  have hm0 := units_pos hm hpos
  have hdiff : ((money n).val - a.amount.val) * 10 ^ moneyScale = ((n - m : Int) : Rat) := by
    rw [sub_mul, money_scaled, hm]
    push_cast
    rfl
  have hnm : 0 ≤ n - m := by
    by_contra hlt
    have hneg : ((money n).plus a.amount.neg).val < 0 := by
      rw [val_minus]
      have : ((n - m : Int) : Rat) < 0 := by exact_mod_cast not_le.1 hlt
      rw [← hdiff] at this
      exact neg_of_mul_neg_left this (by positivity)
    have hc : ((money n).plus a.amount.neg).coeff < 0 := by
      by_contra hc
      exact absurd (Decimal.val_nonneg.2 (not_lt.1 hc)) (not_le.2 hneg)
    exact absurd hcov (not_le.2 (Decimal.fix_neg hc))
  have hexact : Exact ((money n).val - a.amount.val) := by
    refine exact_of_units hdiff ?_
    simp only [fits, decide_eq_true_eq] at hf
    simp only [Decimal.prec]
    omega
  rw [stored_of_units hm hm0.le]
  refine stored_of_units ?_ hnm
  simp only [balanceAfter, Bool.false_eq_true, if_false]
  rw [Decimal.val_sub hexact, hdiff]

theorem Posts.made (h : Posts db c.args c.isCredit t) (hs : Solvent db c.args.userId) (hw : Whole c.args.amount) :
    Made c t ∧ ∃ w, db.wallets c.args.userId = some w ∧ t.balanceBefore = w.balance := by
  obtain ⟨w, hw', h0, hf⟩ := hs
  obtain ⟨v, hv, rfl, hcov⟩ := h.row
  obtain rfl : w = v := Option.some.inj (hw'.symm.trans hv)
  refine ⟨⟨rfl, ?_⟩, w, hw', rfl⟩
  have hfit := h.stored.1
  simp only [TxArgs.row, LedgerCall.signed] at hfit ⊢
  cases hc : c.isCredit with
  | true =>
    rw [hc] at hfit
    exact whole_credit h0 hw h.pos hfit
  | false =>
    rw [hc] at hcov
    rw [whole_debit h0 hf hw h.pos (hcov.resolve_left (by decide))]
    rfl

end

/-! ## Transactions -/

/-- A transaction: after each call it goes on as the outcome has it. -/
inductive LedgerTxn where
  | commit
  | rollback (e : Err)
  | call (c : LedgerCall) (k : Except Err WalletTransaction → LedgerTxn)

namespace LedgerTxn

def prog : LedgerTxn → M Unit
  | .commit => pure ()
  | .rollback e => raise e
  | .call c k => do
    let r ← .attempt c.prog
    (k r).prog

/-- Every call the transaction can make is one of `P`. -/
def Calls (P : LedgerCall → Prop) : LedgerTxn → Prop
  | .commit | .rollback _ => True
  | .call c k => P c ∧ ∀ r, (k r).Calls P

end LedgerTxn

/-- The rows go on from a balance of `b`, each from where the one before ends, and end with `e`. -/
def Chain : Int → List WalletTransaction → Int → Prop
  | b, [], e => b = e
  | b, t :: ts, e => t.balanceBefore = b ∧ Chain t.balanceAfter ts e

theorem Chain.append {b m e : Int} {ts us : List WalletTransaction} (h : Chain b ts m) (h' : Chain m us e) :
    Chain b (ts ++ us) e := by
  induction ts generalizing b with
  | nil =>
    cases h
    exact h'
  | cons t ts ih => exact ⟨h.1, ih h.2⟩

namespace Db

/-- The transactions `ts` on top of `db`, one after the other. -/
def postedAll (db : Db) (ts : List WalletTransaction) : Db := ts.foldl posted db

variable {db : Db} {t : WalletTransaction} {ts us : List WalletTransaction}

@[simp] theorem postedAll_nil : db.postedAll [] = db := rfl

@[simp] theorem postedAll_append : db.postedAll (ts ++ us) = (db.postedAll ts).postedAll us := List.foldl_append

@[simp] theorem postedAll_singleton : db.postedAll [t] = db.posted t := rfl

theorem postedAll_transactions : (db.postedAll ts).transactions = db.transactions ++ ts := by
  induction ts generalizing db with
  | nil => simp
  | cons t ts ih =>
    have := @ih (db.posted t)
    exact this.trans (by simp)

end Db

/-- What every commit keeps: keys are unique and no wallet is overdrawn. -/
structure Books (db : Db) : Prop where
  keys : (db.transactions.map (·.idempotencyKey)).Nodup
  solvent : ∀ u w, db.wallets u = some w → Solvent db u

/-- A posting's key is new. -/
theorem Posts.keys {db : Db} {a : TxArgs} {isCredit : Bool} {t : WalletTransaction} (ht : Posts db a isCredit t)
    (h : (db.transactions.map (·.idempotencyKey)).Nodup) :
    ((db.posted t).transactions.map (·.idempotencyKey)).Nodup := by
  rw [Db.posted_transactions, List.map_append, List.nodup_append]
  refine ⟨h, by simp, fun k hk k' hk' => ?_⟩
  obtain ⟨t', ht', rfl⟩ := List.mem_map.mp hk
  simp only [List.map_cons, List.map_nil, List.mem_singleton] at hk'
  have hfresh := ht.fresh
  simp only [Db.findTransaction, List.find?_eq_none, beq_iff_eq] at hfresh
  exact hk' ▸ ht.names.2 ▸ hfresh t' ht'

theorem Books.posted {db : Db} {a : TxArgs} {isCredit : Bool} {t : WalletTransaction} (h : Books db)
    (ht : Posts db a isCredit t) : Books (db.posted t) where
  keys := ht.keys h.keys
  solvent := by
    intro u w hw
    by_cases hu : a.userId = u
    · obtain ⟨v, hv, _⟩ := ht.row
      exact ⟨_, (ht.wallets_eq hu).1, ht.after_nonneg (h.solvent _ v hv), ht.stored.1⟩
    · rw [(ht.wallets_ne hu).1] at hw
      obtain ⟨v, hv, hrest⟩ := h.solvent u w hw
      exact ⟨v, (ht.wallets_ne hu).1.trans hv, hrest⟩

/-- What calls of `P` make of the tables: their rows, which go on from each wallet as it was. -/
structure Extends (P : LedgerCall → Prop) (a b : Db) (made : List (LedgerCall × WalletTransaction)) : Prop where
  posted : b = a.postedAll (made.map (·.2))
  calls : ∀ p ∈ made, P p.1 ∧ Made p.1 p.2
  chain : ∀ u w, a.wallets u = some w → ∃ w', b.wallets u = some w' ∧
    Chain w.balance ((made.map (·.2)).filter fun t => t.walletId == u) w'.balance

section

variable {P : LedgerCall → Prop} {a b c : Db} {made made' : List (LedgerCall × WalletTransaction)}

theorem Extends.refl (a : Db) : Extends P a a [] := ⟨rfl, by simp, fun _ w hw => ⟨w, hw, rfl⟩⟩

theorem Extends.trans (h : Extends P a b made) (h' : Extends P b c made') : Extends P a c (made ++ made') where
  posted := by rw [h'.posted, h.posted, List.map_append, Db.postedAll_append]
  calls p hp := (List.mem_append.mp hp).elim (h.calls p) (h'.calls p)
  chain u w hw := by
    obtain ⟨w', hw', hc⟩ := h.chain u w hw
    obtain ⟨w'', hw'', hc'⟩ := h'.chain u w' hw'
    refine ⟨w'', hw'', ?_⟩
    rw [List.map_append, List.filter_append]
    exact hc.append hc'

theorem Extends.single {call : LedgerCall} {t : WalletTransaction} (hb : Books a) (hP : P call)
    (hw : Whole call.args.amount) (ht : Posts a call.args call.isCredit t) :
    Extends P a (a.posted t) [(call, t)] where
  posted := rfl
  calls p hp := by
    rw [List.mem_singleton] at hp
    obtain ⟨v, hv, _⟩ := ht.row
    exact hp ▸ ⟨hP, (ht.made (hb.solvent _ v hv) hw).1⟩
  chain u w hu := by
    simp only [List.map_cons, List.map_nil]
    by_cases hcall : call.args.userId = u
    · obtain ⟨v, hv, _⟩ := ht.row
      obtain ⟨_, w', hw', hbefore⟩ := ht.made (hb.solvent _ v hv) hw
      obtain rfl : w' = w := Option.some.inj (hw'.symm.trans (hcall ▸ hu))
      refine ⟨_, (ht.wallets_eq hcall).1, ?_⟩
      have he : t.walletId = u := ht.names.1.trans hcall
      simp only [List.filter_cons, he, beq_self_eq_true, if_true, List.filter_nil]
      exact ⟨hbefore, rfl⟩
    · refine ⟨w, (ht.wallets_ne hcall).1.trans hu, ?_⟩
      have hne : t.walletId ≠ u := ht.names.1 ▸ hcall
      simp only [List.filter_cons, beq_eq_false_iff_ne.mpr hne, Bool.false_eq_true, if_false, List.filter_nil]
      rfl

end

/-- The balance at the end of a chain of calls' rows. -/
theorem chain_balance {made : List (LedgerCall × WalletTransaction)} {u b e : Int}
    (hm : ∀ p ∈ made, Made p.1 p.2) (h : Chain b ((made.map (·.2)).filter fun t => t.walletId == u) e) :
    e = b + ((made.filter fun p => p.1.args.userId == u).map (·.1.signed)).sum := by
  induction made generalizing b with
  | nil =>
    cases h
    simp
  | cons p made ih =>
    obtain ⟨c, t⟩ := p
    have hp := hm (c, t) List.mem_cons_self
    have hrest : ∀ p ∈ made, Made p.1 p.2 := fun p hp => hm p (List.mem_cons_of_mem _ hp)
    have hid : t.walletId = c.args.userId := congrArg WalletTransaction.walletId hp.row
    by_cases hu : c.args.userId = u
    · simp only [List.map_cons, List.filter_cons, hid, hu, beq_self_eq_true, if_true] at h
      have hafter := hp.after
      simp only [List.filter_cons, hu, beq_self_eq_true, if_true, List.map_cons, List.sum_cons]
      rw [ih hrest h.2, hafter, h.1, add_assoc]
    · have hf : (t.walletId == u) = false := by simpa [hid] using hu
      have hf' : (c.args.userId == u) = false := by simpa using hu
      simp only [List.map_cons, List.filter_cons, hf, Bool.false_eq_true, if_false] at h
      simp only [List.filter_cons, hf', Bool.false_eq_true, if_false]
      exact ih hrest h

/-! ## One call while others commit -/

end Falaron.Core

namespace Txn.Local

open Falaron.Core

variable (t : Falaron.Core.Local)

/-- `t` once it has looked a key up in `db` and locked the wallet. -/
def lookedUp (userId : Int) (db : Db) : Falaron.Core.Local :=
  ({ t with seen := db :: t.seen } : Falaron.Core.Local).locked [.wallet userId]

/-- `t` after it has looked the key up in `db` and posted `tx`. -/
def postedTx (tx : WalletTransaction) (db : Db) : Falaron.Core.Local :=
  ((t.lookedUp tx.walletId db).wrote (Stmt.setBalance tx.walletId tx.balanceAfter)).wrote (Stmt.insertTransaction tx)

variable {t} {tx : WalletTransaction} {db db' : Db} {r : Row}

@[simp] theorem view_postedTx : (t.postedTx tx db').view db = (t.view db).posted tx := by
  simp only [postedTx, view_wrote]
  rfl

theorem locks_postedTx : (t.postedTx tx db).locks r ↔
    r = .transactionKey tx.idempotencyKey ∨ r = .wallet tx.walletId ∨ t.locks r := by
  simp [postedTx, locks_wrote, Stmt.setBalance, Stmt.insertTransaction, lookedUp, Txn.Local.locked]

end Txn.Local

namespace Falaron.Core

/-- `t'` has staged and written what `t` has, and holds at least its locks. -/
structure SameWrites (t t' : Local) : Prop where
  staged : t'.staged = t.staged
  pending : t'.pending = t.pending
  locks : ∀ r, t.locks r → t'.locks r

section

variable {R : Txn.Rely Db Row} {guard : List Db → Row → Db → Prop} {a : TxArgs} {isCredit : Bool} {t : Local}
  {db : Db} {Q : WalletTransaction → Local → Db → Prop} {E : Err → Local → Db → Prop}

/-- The rule of a call under interference: it replays its key, raises, or
posts on a wallet that is locked since before it was read. -/
theorem safe_executeTransaction (hst : t.staged = []) (hdb : R.inv db)
    (hk : ∀ {x y}, R.same (.wallet a.userId) x y → (t.view y).wallets a.userId = (t.view x).wallets a.userId)
    (hE : ∀ err t' db', SameWrites t t' → R.Interf t.locks db db' → E err t' db')
    (hreplay : ∀ tx t' db', SameWrites t t' → R.Interf t.locks db db' → Q tx t' db')
    (hposts : ∀ tx db₁ db₂, R.Interf t.locks db db₂ → Posts (t.view db₂) a isCredit tx →
      ∀ db₃, R.Interf (t.postedTx tx db₁).locks db₂ db₃ → Q tx (t.postedTx tx db₁) db₃) :
    (executeTransaction a isCredit).safe R guard Q E t db := by
  refine Txn.Prog.safe_bind hdb (Txn.Prog.safe_query fun db₁ db₁' h₁ h₁' => ?_)
  have hlooked : SameWrites t { t with seen := db₁ :: t.seen } := ⟨rfl, rfl, fun _ h => h⟩
  cases hkey : (t.view db₁).findTransaction a.idempotencyKey with
  | some tx => exact fun db₂ h₂ => hreplay tx _ _ hlooked ((h₁.trans h₁').trans h₂)
  | none =>
    refine Txn.Prog.safe_bind h₁'.inv ?_
    intro db₂ h₂ hg db₂' h₂'
    have h₀₂ := (h₁.trans h₁').trans h₂
    have hsame : SameWrites t (t.lookedUp a.userId db₁) := ⟨rfl, rfl, fun r hr => .inr hr⟩
    have hmono {x y} (h : R.Interf (t.lookedUp a.userId db₁).locks x y) : R.Interf t.locks x y :=
      h.mono fun r hr => .inr hr
    have hstill {y} (h : R.Interf (t.lookedUp a.userId db₁).locks db₂ y) :
        (t.view y).wallets a.userId = (t.view db₂).wallets a.userId := hk (h.same _ (.inl (by simp)))
    have hv : ∀ d, ({ t with seen := db₁ :: t.seen } : Local).view d = t.view d := fun _ => rfl
    simp only [hv]
    cases hw : (t.view db₂).wallets a.userId with
    | none => exact fun db₃ h₃ => hE _ _ _ hsame (h₀₂.trans (hmono (h₂'.trans h₃)))
    | some w =>
      refine Txn.Prog.safe_bind h₂'.inv (Txn.Prog.safe_require (fun hpos db₃ h₃ => ?_) fun _ db' hi =>
        hE _ _ _ hsame (h₀₂.trans (hmono (h₂'.trans hi))))
      refine Txn.Prog.safe_bind h₃.inv (Txn.Prog.safe_require (fun hcov db₄ h₄ => ?_) fun _ db' hi =>
        hE _ _ _ hsame (h₀₂.trans (hmono (h₂'.trans (h₃.trans hi)))))
      have h₂₄ := (h₂'.trans h₃).trans h₄
      have hst' : (t.lookedUp a.userId db₁).staged = [] := hst
      have hclear := Txn.Local.clear_of_nil hst'
      -- both statements wait in the session; the flush writes them one by one
      simp only [Txn.Prog.write, flush, Txn.Prog.flushed, Txn.Prog.bind_eq, Txn.Prog.pure_eq, Txn.Prog.bind]
      show Txn.Prog.safe R guard Q E (.stage _ (.stage _ (.flush _ (.pure _)))) (t.lookedUp a.userId db₁) db₄
      simp only [Txn.Prog.safe, hst', List.nil_append, List.cons_append, Txn.execAll, hclear]
      intro db₅ h₅ _ hfit db₆ h₆ _ hadm db₇ h₇
      have h₂₆ := h₂₄.trans (h₅.trans (h₆.mono fun r hr => .inr hr))
      rw [Txn.Local.view_wrote] at hadm
      simp only [Stmt.insertTransaction, Bool.and_eq_true] at hadm
      refine hposts (a.row isCredit w.balance) db₁ db₆ (h₀₂.trans (hmono h₂₆)) ?_ db₇ h₇
      refine ⟨Option.isNone_iff_eq_none.mp hadm.1, of_decide_eq_true hpos, ⟨w, (hstill h₂₆).trans hw, rfl, ?_⟩, hfit, hadm.2⟩
      simpa using hcov

end

/-! ## Whole transactions -/

/-- What the row `r` says in both databases. -/
def ledgerSame (r : Row) (a b : Db) : Prop :=
  match r with
  | .wallet u => a.wallets u = b.wallets u
  | .transactionKey k => a.findTransaction k = b.findTransaction k
  | _ => True

theorem ledgerSame.posted {r : Row} {a b : Db} (h : ledgerSame r a b) (t : WalletTransaction) :
    ledgerSame r (a.posted t) (b.posted t) := by
  cases r with
  | wallet u => simp only [ledgerSame, Db.posted_wallets]; rw [show a.wallets u = b.wallets u from h]
  | transactionKey k =>
    simp only [ledgerSame, Db.findTransaction_posted]
    rw [show a.findTransaction k = b.findTransaction k from h]
  | _ => trivial

theorem ledgerSame.postedAll {r : Row} {a b : Db} (h : ledgerSame r a b) (ts : List WalletTransaction) :
    ledgerSame r (a.postedAll ts) (b.postedAll ts) := by
  induction ts generalizing a b with
  | nil => exact h
  | cons t ts ih => exact ih (h.posted t)

/-- What transactions of the ledger keep, when their calls are ones of `P`. -/
def ledgerRely (P : LedgerCall → Prop) : Txn.Rely Db Row where
  inv := Books
  change a b := ∃ made, Extends P a b made
  same := ledgerSame
  change_refl a := ⟨[], .refl a⟩
  change_trans := by
    rintro _ _ _ ⟨made, h⟩ ⟨made', h'⟩
    exact ⟨made ++ made', h.trans h'⟩
  same_refl := by
    intro r _
    cases r <;> simp [ledgerSame]
  same_trans := by
    intro r a b c h h'
    cases r with
    | wallet u => exact Eq.trans h h'
    | transactionKey k => exact Eq.trans h h'
    | _ => trivial

/-- A transaction between two calls: it has made the rows of `made`, holds
their wallets and keys, and keeps the books whatever the others commit. -/
structure Held (P : LedgerCall → Prop) (t : Local) (db : Db) (made : List (LedgerCall × WalletTransaction)) :
    Prop where
  staged : t.staged = []
  view : ∀ db', t.view db' = db'.postedAll (made.map (·.2))
  wallets : ∀ p ∈ made, t.locks (.wallet p.2.walletId)
  keys : ∀ p ∈ made, t.locks (.transactionKey p.2.idempotencyKey)
  sound : ∀ db', (ledgerRely P).Interf t.locks db db' →
    Books (db'.postedAll (made.map (·.2))) ∧ Extends P db' (db'.postedAll (made.map (·.2))) made

section

variable {P : LedgerCall → Prop} {t t' : Local} {db db' : Db} {made : List (LedgerCall × WalletTransaction)}

theorem Held.sameWrites (h : Held P t db made) (ht : SameWrites t t') (hi : (ledgerRely P).Interf t.locks db db') :
    Held P t' db' made where
  staged := ht.staged.trans h.staged
  view db := by
    simp only [Txn.Local.view, ht.pending]
    exact h.view db
  wallets p hp := ht.locks _ (h.wallets p hp)
  keys p hp := ht.locks _ (h.keys p hp)
  sound _ hi' := h.sound _ (hi.trans (hi'.mono ht.locks))

theorem Held.wallet (h : Held P t db made) {u : Int} {x y : Db} (hs : (ledgerRely P).same (.wallet u) x y) :
    (t.view y).wallets u = (t.view x).wallets u := by
  simp only [h.view]
  exact (ledgerSame.postedAll (r := .wallet u) hs _).symm

theorem Held.key (h : Held P t db made) {k : String} {x y : Db} (hs : (ledgerRely P).same (.transactionKey k) x y) :
    (t.view y).findTransaction k = (t.view x).findTransaction k := by
  simp only [h.view]
  exact (ledgerSame.postedAll (r := .transactionKey k) hs _).symm

/-- A posting of a transaction that keeps the books: the row joins what it holds. -/
theorem Held.postedTx (h : Held P t db made) {c : LedgerCall} {tx : WalletTransaction} {db₁ db₂ db₃ : Db}
    (hP : P c) (hw : Whole c.args.amount) (h₂ : (ledgerRely P).Interf t.locks db db₂)
    (hp : Posts (t.view db₂) c.args c.isCredit tx)
    (h₃ : (ledgerRely P).Interf (t.postedTx tx db₁).locks db₂ db₃) :
    Held P (t.postedTx tx db₁) db₃ (made ++ [(c, tx)]) where
  staged := h.staged
  view db' := by simp only [Txn.Local.view_postedTx, h.view, List.map_append, List.map_cons, List.map_nil,
    Db.postedAll_append, Db.postedAll_singleton]
  wallets p hmem := by
    rw [Txn.Local.locks_postedTx]
    rcases List.mem_append.mp hmem with hmem | hmem
    · exact .inr (.inr (h.wallets p hmem))
    · rw [List.mem_singleton] at hmem
      exact .inr (.inl (hmem ▸ rfl))
  keys p hmem := by
    rw [Txn.Local.locks_postedTx]
    rcases List.mem_append.mp hmem with hmem | hmem
    · exact .inr (.inr (h.keys p hmem))
    · rw [List.mem_singleton] at hmem
      exact .inl (hmem ▸ rfl)
  sound db' hi := by
    have h₃' := h₃.trans hi
    obtain ⟨hbooks, hext⟩ := h.sound db' (h₂.trans (h₃'.mono fun r hr => Txn.Local.locks_postedTx.mpr (.inr (.inr hr))))
    -- the wallet and the key are locked, so the row posts on `db'` as it did on `db₂`
    have hwallet := h.wallet (h₃'.same (.wallet c.args.userId) (Txn.Local.locks_postedTx.mpr
      (.inr (.inl (hp.names.1 ▸ rfl)))))
    have hkey := h.key (h₃'.same (.transactionKey c.args.idempotencyKey) (Txn.Local.locks_postedTx.mpr
      (.inl (hp.names.2 ▸ rfl))))
    have hp' := hp.congr hwallet hkey
    rw [h.view] at hp'
    simp only [List.map_append, List.map_cons, List.map_nil, Db.postedAll_append, Db.postedAll_singleton]
    exact ⟨hbooks.posted hp', hext.trans (.single hbooks hP hw hp')⟩

theorem postedAll_same {r : Row} {ts : List WalletTransaction} (hw : ∀ t ∈ ts, r ≠ .wallet t.walletId)
    (hk : ∀ t ∈ ts, r ≠ .transactionKey t.idempotencyKey) : ledgerSame r db (db.postedAll ts) := by
  induction ts generalizing db with
  | nil => exact (ledgerRely fun _ => True).same_refl r db
  | cons t ts ih =>
    refine (ledgerRely fun _ => True).same_trans (b := db.posted t) ?_
      (ih (fun t' h' => hw t' (by simp [h'])) fun t' h' => hk t' (by simp [h']))
    have hw := hw t (by simp)
    have hk := hk t (by simp)
    cases r with
    | wallet u =>
      have hne : u ≠ t.walletId := fun h => hw (h ▸ rfl)
      simp only [ledgerRely, ledgerSame, Db.posted_wallets, if_neg hne]
    | transactionKey k =>
      have hne : t.idempotencyKey ≠ k := fun h => hk (h ▸ rfl)
      simp only [ledgerRely, ledgerSame, Db.findTransaction_posted, if_neg hne, Option.or_none]
    | _ => trivial

/-- Such a transaction may commit. -/
theorem Held.ends (h : Held P t db made) : Txn.ends (ledgerRely P) t db := by
  intro db' hi
  obtain ⟨hbooks, hext⟩ := h.sound db' hi
  refine ⟨h.view db' ▸ hbooks, ⟨made, h.view db' ▸ hext⟩, fun r hr => ?_⟩
  rw [h.view]
  refine postedAll_same (fun t ht hre => ?_) fun t ht hre => ?_
  · obtain ⟨p, hp, rfl⟩ := List.mem_map.mp ht
    exact hr (hre ▸ h.wallets p hp)
  · obtain ⟨p, hp, rfl⟩ := List.mem_map.mp ht
    exact hr (hre ▸ h.keys p hp)

/-- Whatever a transaction calls, it keeps the books. -/
theorem LedgerTxn.safe (hP : ∀ c, P c → Whole c.args.amount) (w : LedgerTxn) : ∀ {t : Local} {db : Db}
    {made : List (LedgerCall × WalletTransaction)}, w.Calls P → Books db → Held P t db made →
    w.prog.Safe (ledgerRely P) (fun _ _ _ => True) t db := by
  induction w with
  | commit =>
    intro t db made _ hdb h db' hi
    have h' := h.sameWrites ⟨rfl, rfl, fun _ hr => hr⟩ hi
    simp only [h.staged, Txn.execAll, Txn.Local.clear_of_nil h.staged]
    exact h'.ends
  | rollback e => exact fun _ _ _ _ _ => trivial
  | call c k ih =>
    intro t db made hc hdb h
    refine Txn.Prog.safe_bind hdb (Txn.Prog.safe_attempt ?_)
    rw [c.prog_eq]
    refine safe_executeTransaction h.staged hdb h.wallet (fun err t' db' ht hi => ?_)
      (fun tx t' db' ht hi => ?_) fun tx db₁ db₂ h₂ hp db₃ h₃ => ?_
    · exact ih (.error err) (hc.2 _) hi.inv (h.sameWrites ht hi)
    · exact ih (.ok tx) (hc.2 _) hi.inv (h.sameWrites ht hi)
    · exact ih (.ok tx) (hc.2 _) h₃.inv (h.postedTx hc.1 (hP c hc.1) h₂ hp h₃)

end

end Falaron.Core
