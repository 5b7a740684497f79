/-
The ledger of the second system: `credit` and `debit` on one user's wallet,
each a row of the transaction log, and the audit of the log.

Both are one executor, which differs in the sign only. It looks the key up
first and locks the wallet after that. A row keeps the amount without its
sign, and the audit adds the amounts up as they are.
-/
import Falaron.Core

namespace Falaron.Core

open Py (Decimal)

/-- The arguments `credit` and `debit` share. -/
structure TxArgs where
  userId : Int
  amount : Decimal
  txType : TxType
  idempotencyKey : String
  referenceId : Option String := none
  reason : Option String := none
  deriving DecidableEq, Repr

/-- `_find_by_idempotency_key` -/
def findByIdempotencyKey (key : String) : M (Option WalletTransaction) := .query (·.findTransaction key)

def balanceAfter (isCredit : Bool) (before amount : Decimal) : Decimal :=
  if isCredit then before.add amount else before.sub amount

/-- The row a call writes on a wallet of `balance`. -/
def TxArgs.row (a : TxArgs) (isCredit : Bool) (balance : Int) : WalletTransaction where
  walletId := a.userId
  txType := a.txType
  amount := stored a.amount
  balanceBefore := balance
  balanceAfter := stored (Core.balanceAfter isCredit (money balance) a.amount)
  idempotencyKey := a.idempotencyKey
  referenceId := a.referenceId
  reason := a.reason

namespace Err

def walletNotFound (userId : Int) : Err :=
  .smm .wallet s!"Wallet not found for user {userId}" "Wallet not found."

def invalidAmount (amount : Decimal) : Err :=
  .smm .wallet ("Invalid transaction amount: " ++ amount.str) "Transaction amount must be greater than zero."

def insufficientBalance (userId : Int) (balance amount : Decimal) : Err :=
  .smm (.insufficientBalance amount balance)
    (s!"Insufficient balance: user={userId} balance=" ++ balance.str ++ " required=" ++ amount.str)
    "Insufficient wallet balance."

end Err

/-- `_execute_transaction` -/
def executeTransaction (a : TxArgs) (isCredit : Bool) : M WalletTransaction := do
  match ← findByIdempotencyKey a.idempotencyKey with
  | some existing => pure existing
  | none =>
    match ← .lockRow (.wallet a.userId) (·.wallets a.userId) with
    | none => raise (.walletNotFound a.userId)
    | some wallet =>
      .require (0 < a.amount.coeff) (.invalidAmount a.amount)
      let after := balanceAfter isCredit (money wallet.balance) a.amount
      .require (isCredit || 0 ≤ after.coeff) (.insufficientBalance a.userId (money wallet.balance) a.amount)
      .write (Stmt.setBalance a.userId (stored after))
      .write (Stmt.insertTransaction (a.row isCredit wallet.balance))
      flush
      pure (a.row isCredit wallet.balance)

def credit (a : TxArgs) : M WalletTransaction := executeTransaction a true

def debit (a : TxArgs) : M WalletTransaction := executeTransaction a false

/-- The total the audit compares a balance with. -/
def Db.computed (db : Db) (userId : Int) : Int := ((db.transactionsOf userId).map (·.amount)).sum

/-- `verify_ledger_invariant`: is the wallet valid, its balance, and the sum of its transactions. -/
def verifyLedgerInvariant (userId : Int) : M (Bool × Int × Int) := do
  match ← .query (·.wallets userId) with
  | none => pure (false, 0, 0)
  | some wallet =>
    let computed ← .query (·.computed userId)
    pure (wallet.balance = computed, wallet.balance, computed)

/-- Any call of the ledger. -/
inductive LedgerCall where
  | credit (a : TxArgs)
  | debit (a : TxArgs)
  deriving DecidableEq, Repr

namespace LedgerCall

def prog : LedgerCall → M WalletTransaction
  | .credit a => Core.credit a
  | .debit a => Core.debit a

def args : LedgerCall → TxArgs
  | .credit a | .debit a => a

def isCredit : LedgerCall → Bool
  | .credit _ => true
  | .debit _ => false

theorem prog_eq (c : LedgerCall) : c.prog = executeTransaction c.args c.isCredit := by cases c <;> rfl

end LedgerCall

/-! ## What a call does alone -/

/-- What a call writes, on the tables it finds. -/
structure Posts (db : Db) (a : TxArgs) (isCredit : Bool) (t : WalletTransaction) : Prop where
  fresh : db.findTransaction a.idempotencyKey = none
  pos : 0 < a.amount.coeff
  row : ∃ w, db.wallets a.userId = some w ∧ t = a.row isCredit w.balance ∧
    (isCredit = true ∨ 0 ≤ (balanceAfter isCredit (money w.balance) a.amount).coeff)
  stored : fits t.balanceAfter = true ∧ Stmt.holds t = true

section

variable {db db' : Db} {a : TxArgs} {isCredit : Bool} {t : WalletTransaction}

theorem Posts.names (h : Posts db a isCredit t) : t.walletId = a.userId ∧ t.idempotencyKey = a.idempotencyKey := by
  obtain ⟨_, _, rfl, _⟩ := h.row
  exact ⟨rfl, rfl⟩

/-- A posting depends on its wallet and its key only. -/
theorem Posts.congr (h : Posts db a isCredit t) (hw : db'.wallets a.userId = db.wallets a.userId)
    (hk : db'.findTransaction a.idempotencyKey = db.findTransaction a.idempotencyKey) :
    Posts db' a isCredit t :=
  ⟨hk.trans h.fresh, h.pos, hw ▸ h.row, h.stored⟩

/-- The rule of a call: it replays its key, raises with nothing staged unless
the database refuses its row, or posts one transaction. -/
theorem wp_executeTransaction_raises {s : Session} {Q : WalletTransaction → Session → Prop} {E : Err → Session → Prop}
    (hst : s.staged = []) (hE : ∀ err, E err s) (hrefused : ∀ ws, E .database { s with staged := ws })
    (hreplay : ∀ t, s.db.findTransaction a.idempotencyKey = some t → Q t s)
    (hposts : ∀ t, Posts s.db a isCredit t → Q t { s with db := s.db.posted t }) :
    (executeTransaction a isCredit).wp Q E s := by
  simp only [executeTransaction, findByIdempotencyKey, Txn.Prog.wp_bind, Txn.Prog.wp_query]
  cases hk : s.db.findTransaction a.idempotencyKey with
  | some t => exact hreplay t hk
  | none =>
    simp only [Txn.Prog.wp_bind, Txn.Prog.wp_lockRow]
    cases hw : s.db.wallets a.userId with
    | none => exact hE _
    | some w =>
      simp only [Txn.Prog.wp_bind, Txn.Prog.wp_require, decide_eq_true_eq]
      split
      case isFalse => exact hE _
      next hpos =>
      split
      case isFalse => exact hE _
      next hcov =>
      simp only [Txn.Prog.wp_write, hst, List.nil_append, List.cons_append, flush, Txn.Prog.wp_flushed]
      split
      · next db' hf =>
        simp only [Txn.flushAll] at hf
        split at hf
        case isFalse => cases hf
        next hfit =>
        split at hf
        case isFalse => cases hf
        next hadm =>
        simp only [Option.some.injEq] at hf
        subst hf
        simp only [Stmt.insertTransaction, Bool.and_eq_true] at hadm
        have hp : Posts s.db a isCredit (a.row isCredit w.balance) :=
          ⟨hk, hpos, ⟨w, hw, rfl, by simpa using hcov⟩, hfit, hadm.2⟩
        have hq := hposts _ hp
        simp only [← hst] at hq ⊢
        exact hq
      · exact hrefused _

/-- The rule where it does not matter what is staged when a call raises. -/
theorem wp_executeTransaction {s : Session} {Q : WalletTransaction → Session → Prop} {E : Err → Session → Prop}
    (hst : s.staged = []) (hE : ∀ err ws, E err { s with staged := ws })
    (hreplay : ∀ t, s.db.findTransaction a.idempotencyKey = some t → Q t s)
    (hposts : ∀ t, Posts s.db a isCredit t → Q t { s with db := s.db.posted t }) :
    (executeTransaction a isCredit).wp Q E s := by
  refine wp_executeTransaction_raises hst (fun err => ?_) (hE .database) hreplay hposts
  simpa only [← hst] using hE err []

/-- A call that can post does. -/
theorem Posts.run (h : Posts db a isCredit t) :
    (executeTransaction a isCredit).run { db := db } = (.ok t, { db := db.posted t }) := by
  obtain ⟨w, hw, rfl, hcov⟩ := h.row
  have hfresh : (db.findTransaction a.idempotencyKey).isNone = true := Option.isNone_iff_eq_none.mpr h.fresh
  have hcov' : (isCredit || decide (0 ≤ (balanceAfter isCredit (money w.balance) a.amount).coeff)) = true := by
    simpa using hcov
  have hflush : Txn.flushAll [Stmt.setBalance a.userId (Core.stored (balanceAfter isCredit (money w.balance) a.amount)),
      Stmt.insertTransaction (a.row isCredit w.balance)] db = some (db.posted (a.row isCredit w.balance)) := by
    refine (Txn.flushAll_cons h.stored.1).trans (Txn.flushAll_cons ?_)
    exact Bool.and_eq_true_iff.mpr ⟨hfresh, h.stored.2⟩
  simp only [executeTransaction, findByIdempotencyKey, Txn.Prog.bind_eq, Txn.Prog.run_bind, Txn.Prog.query,
    Txn.Prog.run, h.fresh, Txn.Prog.lockRow, hw, Txn.Prog.require, decide_eq_true h.pos, hcov', if_true,
    Txn.Prog.write, flush, Txn.Prog.flushed, List.nil_append, List.cons_append, hflush, Txn.Prog.pure_eq]

end

/-! ## Runs -/

/-- The tables after a call whose caller commits it, or rolls it back when it raises. -/
def LedgerCall.step (db : Db) (c : LedgerCall) : Db := c.prog.commit (fun _ => false) db

def ledgerRun (db : Db) (calls : List LedgerCall) : Db := calls.foldl LedgerCall.step db

/-- A call leaves the tables as they are, or posts one transaction. -/
theorem LedgerCall.step_cases (db : Db) (c : LedgerCall) : c.step db = db ∨
    ∃ t, Posts db c.args c.isCredit t ∧ c.step db = db.posted t := by
  have h : c.prog.wp
      (fun _ s => s.staged = [] ∧ (s.db = db ∨ ∃ t, Posts db c.args c.isCredit t ∧ s.db = db.posted t))
      (fun _ _ => True) { db := db } := by
    rw [c.prog_eq]
    refine wp_executeTransaction rfl (fun _ _ => trivial) (fun t _ => ⟨rfl, .inl rfl⟩) fun t ht => ?_
    exact ⟨rfl, .inr ⟨t, ht, rfl⟩⟩
  refine Txn.Prog.commit_of_wp (P := fun db' => db' = db ∨ ∃ t, Posts db c.args c.isCredit t ∧ db' = db.posted t)
    (.inl rfl) (Txn.Prog.wp_mono h (fun t s hs => ?_) fun _ _ _ hc => by simp at hc)
  rw [hs.1]
  exact hs.2

theorem Posts.step {db : Db} {c : LedgerCall} {t : WalletTransaction} (h : Posts db c.args c.isCredit t) :
    c.step db = db.posted t := by
  rw [LedgerCall.step, c.prog_eq, Txn.Prog.commit, h.run]
  rfl

end Falaron.Core
