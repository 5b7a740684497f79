/-
The replay promise of the ledger under any interleaving.

A call whose key is committed when it looks gives back that row. A call that
has looked and found nothing goes on to insert, and the unique column refuses
it exactly when another transaction has committed the key since the look: the
call raises instead of replaying, and its transaction is lost.
-/
import Falaron.LedgerConcurrent

namespace Falaron.Core

open Txn (Past)

/-- Of every insertion under a key: the call looked the key up in `d`, where
it was not, and the transaction has not used it itself. -/
def Looked (p : Past Db Row) (w : Stmt) : Prop :=
  ∀ k, Row.transactionKey k ∈ w.rows → ∃ d rest, p.seen = d :: rest ∧ d.findTransaction k = none ∧
    ∀ db, (p.view db).findTransaction k = db.findTransaction k

/-- A transaction between two calls: what it has written is rows under keys of its own. -/
structure Own (p : Past Db Row) : Prop where
  staged : p.staged = []
  keys : ∃ own : String → Option WalletTransaction,
    ∀ db k, (p.view db).findTransaction k = (db.findTransaction k).or (own k)

theorem Own.read {p : Past Db Row} (h : Own p) (d : Db) : Own { p with seen := d :: p.seen } := ⟨h.staged, h.keys⟩

theorem Own.wrote {p : Past Db Row} (h : Own p) (t : WalletTransaction) :
    Own ((p.wrote (Stmt.setBalance t.walletId t.balanceAfter)).wrote (Stmt.insertTransaction t)) where
  staged := h.staged
  keys := by
    obtain ⟨own, hown⟩ := h.keys
    refine ⟨fun k => (own k).or (if t.idempotencyKey = k then some t else none), fun db k => ?_⟩
    have hview : ((p.wrote (Stmt.setBalance t.walletId t.balanceAfter)).wrote (Stmt.insertTransaction t)).view db =
        (p.view db).posted t := by
      simp only [Past.view, Past.wrote, Txn.view_append]
      rfl
    rw [hview, Db.findTransaction_posted, hown, Option.or_assoc]

theorem each_executeTransaction {a : TxArgs} {isCredit : Bool} {p : Past Db Row} (h : Own p) :
    (executeTransaction a isCredit).each Looked (fun _ p' => Own p') (fun _ p' => Own p') p := by
  refine Txn.Prog.each_bind (Txn.Prog.each_query fun d => ?_)
  have hread := h.read d
  cases hkey : (p.view d).findTransaction a.idempotencyKey with
  | some t => exact hread
  | none =>
    refine Txn.Prog.each_bind (Txn.Prog.each_lockRow fun d' => ?_)
    have hv : ({ p with seen := d :: p.seen } : Past Db Row).view d' = p.view d' := rfl
    rw [hv]
    cases hw : (p.view d').wallets a.userId with
    | none => exact hread
    | some w =>
      refine Txn.Prog.each_bind (Txn.Prog.each_require (fun _ => ?_) fun _ => hread)
      refine Txn.Prog.each_bind (Txn.Prog.each_require (fun _ => ?_) fun _ => hread)
      simp only [Txn.Prog.write, flush, Txn.Prog.flushed, Txn.Prog.bind_eq, Txn.Prog.pure_eq, Txn.Prog.bind,
        Txn.Prog.each, h.staged, List.nil_append, List.cons_append, Txn.eachAll]
      obtain ⟨own, hown⟩ := h.keys
      have hnone := hown d a.idempotencyKey
      rw [hkey] at hnone
      obtain ⟨hd, hk⟩ := Option.or_eq_none_iff.mp hnone.symm
      refine ⟨fun k hk' => by simp [Stmt.setBalance] at hk', fun k hk' => ?_, ?_⟩
      · simp only [Stmt.insertTransaction, List.mem_singleton, Row.transactionKey.injEq] at hk'
        subst hk'
        refine ⟨d, p.seen, rfl, hd, fun db => ?_⟩
        have hdb := hown db a.idempotencyKey
        rw [hk, Option.or_none] at hdb
        simp only [Past.view, Past.wrote, Txn.view_append]
        exact hdb
      · have hclear := Past.clear_of_nil hread.staged
        have hwrote := hread.wrote (a.row isCredit w.balance)
        rw [← hclear] at hwrote
        exact hwrote

theorem LedgerTxn.each (w : LedgerTxn) : ∀ {p : Past Db Row}, Own p → w.prog.Each Looked p := by
  induction w with
  | commit =>
    intro p h
    show Txn.eachAll Looked _ p.staged _
    rw [h.staged]
    exact trivial
  | rollback e => exact fun _ => trivial
  | call c k ih =>
    intro p h
    refine Txn.Prog.each_bind (Txn.Prog.each_attempt ?_)
    rw [c.prog_eq]
    exact Txn.Prog.each_mono (each_executeTransaction h) (fun t _ h' => ih (.ok t) h') fun e _ h' => ih (.error e) h'

section

variable {ι : Type} [DecidableEq ι] {P : LedgerCall → Prop} {db : Db} {s : Txn.Sys ι LedgerTxn Db Row Err Ext}

omit [DecidableEq ι] in
/-- The first thing a call does is to look its key up. -/
theorem prog_select (c : LedgerCall) (k : Except Err WalletTransaction → LedgerTxn) :
    ∃ f, (LedgerTxn.call c k).prog = .select f ∧
      ∀ d tx, d.findTransaction c.args.idempotencyKey = some tx → f d = (k (.ok tx)).prog := by
  rw [LedgerTxn.prog, c.prog_eq]
  refine ⟨_, rfl, fun d tx h => ?_⟩
  simp only [Txn.Prog.bind, h]
  rfl

/-- A call whose key the transaction can see goes on with that row, and writes nothing. -/
theorem call_replays {i : ι} {t : Txn.Thread LedgerTxn Db Row Err Ext} {c : LedgerCall}
    {k : Except Err WalletTransaction → LedgerTxn} {tx : WalletTransaction} (ht : s.threads i = some t)
    (hp : t.prog = (LedgerTxn.call c k).prog)
    (hk : (Txn.view t.pending s.db).findTransaction c.args.idempotencyKey = some tx) :
    s.step i = some (s.put i { t with prog := (k (.ok tx)).prog, seen := s.db :: t.seen }) := by
  obtain ⟨f, hf, hval⟩ := prog_select c k
  rw [hf] at hp
  simp only [Txn.Sys.step, ht, hp, hval _ _ hk]

theorem LedgerTxn.reach_good (hP : ∀ c, P c → Whole c.args.amount) (hdb : Books db)
    (h : Txn.Sys.Reach LedgerTxn.prog (LedgerTxn.Calls P) (fun _ _ _ _ => True) { db := db } s) :
    s.Good (ledgerRely P) (fun _ _ _ _ => True) ∧ (ledgerRely P).change db s.db := by
  have hcode : ∀ w, LedgerTxn.Calls P w → ∀ db', Books db' →
      w.prog.Safe (ledgerRely P) (fun _ _ _ => True) {} db' := by
    intro w hw db' hdb'
    have hheld : Held P {} db' [] := ⟨rfl, fun _ => rfl, by simp, by simp, fun d hi => ⟨hi.inv, .refl d⟩⟩
    exact w.safe hP hw hdb' hheld
  have h₀ : ({ db := db } : Txn.Sys ι LedgerTxn Db Row Err Ext).Good (ledgerRely P) fun _ _ _ _ => True :=
    .idle_start hdb
  exact ⟨Txn.Sys.Reach.good h₀ hcode h, Txn.Sys.Reach.change h₀ hcode h⟩

theorem LedgerTxn.reach_looked
    (h : Txn.Sys.Reach LedgerTxn.prog (LedgerTxn.Calls P) (fun _ _ _ _ => True) { db := db } s) : s.Ahead Looked :=
  Txn.Sys.Reach.ahead (fun _ _ ht => by cases ht)
    (fun w _ => w.each ⟨rfl, fun _ => none, fun d k => (Option.or_none (o := d.findTransaction k)).symm⟩) h

/-- **The ledger under concurrency.** In every state of every interleaving of
transactions whose calls have whole amounts: the rows committed since the
start are rows of such calls, under different keys, and on each wallet they
continue each other from the balance it had to the balance it has, which is
the old one plus the credits minus the debits and not below zero. A call
that can see its key goes on with that row. And the insertion of a call that
has looked in vain, in `d`, is admitted (if the columns hold the row) exactly
when no transaction has committed the key since; otherwise it raises, and its
transaction is lost. -/
theorem ledger_concurrent (hP : ∀ c, P c → Whole c.args.amount) (hdb : Books db)
    (h : Txn.Sys.Reach LedgerTxn.prog (LedgerTxn.Calls P) (fun _ _ _ _ => True) { db := db } s) :
    (∃ made : List (LedgerCall × WalletTransaction), (∀ p ∈ made, P p.1 ∧ Made p.1 p.2) ∧
      s.db.transactions = db.transactions ++ made.map (·.2) ∧
      (s.db.transactions.map (·.idempotencyKey)).Nodup ∧
      ∀ u w, db.wallets u = some w → ∃ w', s.db.wallets u = some w' ∧ 0 ≤ w'.balance ∧
        w'.balance = w.balance + ((made.filter fun p => p.1.args.userId == u).map (·.1.signed)).sum ∧
        Chain w.balance ((made.map (·.2)).filter fun t => t.walletId == u) w'.balance) ∧
    (∀ i t c k tx, s.threads i = some t → t.prog = (LedgerTxn.call c k).prog →
      (Txn.view t.pending s.db).findTransaction c.args.idempotencyKey = some tx →
      s.step i = some (s.put i { t with prog := (k (.ok tx)).prog, seen := s.db :: t.seen })) ∧
    ∀ i t e k tx ws, s.threads i = some t → t.prog = .flush e k → t.staged = Stmt.insertTransaction tx :: ws →
      ∃ d rest, t.seen = d :: rest ∧
        ((Stmt.insertTransaction tx).admits (Txn.view t.pending s.db) = true ↔
          s.db.findTransaction tx.idempotencyKey = d.findTransaction tx.idempotencyKey ∧ Stmt.holds tx = true) ∧
        (s.db.findTransaction tx.idempotencyKey ≠ d.findTransaction tx.idempotencyKey →
          s.free i [.transactionKey tx.idempotencyKey] = true → s.step i = some (s.finish i s.db)) := by
  obtain ⟨hgood, made, hext⟩ := LedgerTxn.reach_good hP hdb h
  refine ⟨⟨made, hext.calls, ?_, hgood.inv.keys, fun u w hw => ?_⟩, fun i t c k tx => call_replays, ?_⟩
  · rw [hext.posted, Db.postedAll_transactions]
  · obtain ⟨w', hw', hc⟩ := hext.chain u w hw
    obtain ⟨v, hv, h0, _⟩ := hgood.inv.solvent u w' hw'
    obtain rfl : w' = v := Option.some.inj (hw'.symm.trans hv)
    exact ⟨w', hw', h0, chain_balance (fun p hp => (hext.calls p hp).2) hc, hc⟩
  · intro i t e k tx ws ht hp hst
    have hwriting : t.writing = some (Stmt.insertTransaction tx) := by rw [Txn.Thread.writing, hp, hst]; rfl
    obtain ⟨_, hlooked⟩ := (LedgerTxn.reach_looked h).writing ht hwriting
    obtain ⟨d, rest, hseen, hd, hview⟩ := hlooked tx.idempotencyKey (by simp [Stmt.insertTransaction])
    have hadm : (Stmt.insertTransaction tx).admits (Txn.view t.pending s.db) = true ↔
        s.db.findTransaction tx.idempotencyKey = d.findTransaction tx.idempotencyKey ∧ Stmt.holds tx = true := by
      have hview := hview s.db
      simp only [Past.view] at hview
      simp only [Stmt.insertTransaction, Bool.and_eq_true, hview, hd, Option.isNone_iff_eq_none]
    refine ⟨d, rest, hseen, hadm, fun hne hfree => ?_⟩
    have hrefused : ¬ (Stmt.insertTransaction tx).admits (Txn.view t.pending s.db) = true :=
      fun ha => hne (hadm.mp ha).1
    simp only [Txn.Sys.step, ht, hp, hst, Txn.Sys.writeNext]
    rw [if_pos (by exact hfree), if_neg hrefused]

end

/-- Two deposits on one wallet: the second looks its key up and then waits for the first one's commit. -/
theorem ledger_concurrent_of_two_credits :
    let deposit (n : Int) (key : String) : LedgerCall := .credit ⟨7, ⟨n, -2⟩, .deposit, key, none, none⟩
    let txn (n : Int) (key : String) : LedgerTxn := .call (deposit n key) fun _ => .commit
    let s₀ : Txn.Sys Nat LedgerTxn Db Row Err Ext := { db := newWallet 7 }
    let run := s₀.exec LedgerTxn.prog ([.start 0 (txn 500 "a"), .start 1 (txn 300 "b"), .step 1] ++
      List.replicate 8 (.step 0) ++ List.replicate 7 (.step 1))
    run.map (fun s => (s.db.wallets 7).map (·.balance)) = some (some 80000) ∧
      ∀ s, run = some s → (s.db.transactions.map (·.idempotencyKey)).Nodup := by
  intro deposit txn s₀ run
  refine ⟨by decide +kernel, fun s hs => ?_⟩
  have hbooks : Books (newWallet 7) := by
    refine ⟨List.nodup_nil, fun u w hw => ?_⟩
    by_cases h : u = 7
    · exact h ▸ newWallet_solvent 7
    · simp [newWallet, h] at hw
  have hcalls (n : Int) (key : String) : (txn n key).Calls fun c => Whole c.args.amount :=
    ⟨⟨n * 100, by simp [deposit, LedgerCall.args, Py.Decimal.val, moneyScale]; ring⟩, fun _ => trivial⟩
  have hreach : Txn.Sys.Reach LedgerTxn.prog (LedgerTxn.Calls fun c => Whole c.args.amount) (fun _ _ _ _ => True)
      s₀ s := Txn.Sys.exec_reach _ .refl (fun i w hm => by
    have hw : i = 0 ∧ w = txn 500 "a" ∨ i = 1 ∧ w = txn 300 "b" := by simpa using hm
    rcases hw with ⟨_, rfl⟩ | ⟨_, rfl⟩ <;> exact hcalls _ _) hs
  exact ((ledger_concurrent (fun _ h => h) hbooks hreach).1.choose_spec).2.2.1

/-- A redelivered deposit that looked before the first one committed: when
its turn to insert comes its key is committed, and its next step ends its
transaction with nothing of it committed. One that looks later replays. -/
theorem concurrent_replay_raises :
    let deposit (key : String) : LedgerCall := .credit ⟨7, ⟨500, -2⟩, .deposit, key, none, none⟩
    let first : LedgerTxn := .call (deposit "a") fun _ => .commit
    let again : LedgerTxn := .call (deposit "a") fun
      | .ok _ => .call (deposit "b") fun _ => .commit
      | .error e => .rollback e
    let s₀ : Txn.Sys Nat LedgerTxn Db Row Err Ext := { db := newWallet 7 }
    let seen (s : Txn.Sys Nat LedgerTxn Db Row Err Ext) : List String × Bool :=
      (s.db.transactions.map (·.idempotencyKey), (s.threads 1).isSome)
    let early := s₀.exec LedgerTxn.prog ([.start 0 first, .start 1 again, .step 1] ++
      List.replicate 8 (.step 0) ++ List.replicate 4 (.step 1))
    let late := s₀.exec LedgerTxn.prog ([.start 0 first, .start 1 again] ++
      List.replicate 8 (.step 0) ++ List.replicate 9 (.step 1))
    early.map seen = some (["a"], true) ∧
      (early.bind fun s => s.act LedgerTxn.prog (.step 1)).map seen = some (["a"], false) ∧
      late.map seen = some (["a", "b"], false) := by
  decide +kernel

end Falaron.Core
