/-
The wallet under any interleaving of transactions.

A transaction makes any calls, each chosen after the outcome of the one
before, and ends in a commit or a rollback. What carries the argument is that
its own postings, and nothing else, lie on top of whatever the others commit
(`Held`): the rows it has posted on are locked, so the wallets it started
from stay what they were.
-/
import Falaron.WalletRun

namespace Falaron

/-- A transaction: after each call it goes on as the outcome has it. -/
inductive WalletTxn where
  | commit
  | rollback (e : Err)
  | call (c : WalletCall) (k : Except Err LedgerEntry → WalletTxn)

def WalletTxn.prog : WalletTxn → M Unit
  | .commit => pure ()
  | .rollback e => raise e
  | .call c k => do
    let r ← .attempt c.prog
    (k r).prog

namespace Db

/-- The entries of `es` on top of `db`, one after the other. -/
def postedAll (db : Db) (es : List LedgerEntry) : Db := es.foldl posted db

@[simp] theorem postedAll_nil (db : Db) : db.postedAll [] = db := rfl

@[simp] theorem postedAll_append (db : Db) (es es' : List LedgerEntry) :
    db.postedAll (es ++ es') = (db.postedAll es).postedAll es' := List.foldl_append

@[simp] theorem postedAll_singleton (db : Db) (e : LedgerEntry) : db.postedAll [e] = db.posted e := rfl

theorem postedAll_ledger (db : Db) (es : List LedgerEntry) : (db.postedAll es).ledger = db.ledger ++ es := by
  induction es generalizing db with
  | nil => simp
  | cons e es ih => exact (ih (db.posted e)).trans (by simp)

end Db

/-- What the row `r` says in both databases. -/
def walletSame (r : Row) (a b : Db) : Prop :=
  match r with
  | .user u => a.users u = b.users u ∧ a.entriesOf u = b.entriesOf u
  | .ledgerKey k => a.findEntry k = b.findEntry k
  | _ => True

theorem walletSame.posted {r : Row} {a b : Db} (h : walletSame r a b) (e : LedgerEntry) :
    walletSame r (a.posted e) (b.posted e) := by
  cases r with
  | user u => exact ⟨by simp only [Db.posted_users, h.1], by simp only [Db.entriesOf_posted, h.2]⟩
  | ledgerKey k => simp only [walletSame, Db.findEntry_posted]; rw [show a.findEntry k = b.findEntry k from h]
  | _ => trivial

theorem walletSame.postedAll {r : Row} {a b : Db} (h : walletSame r a b) (es : List LedgerEntry) :
    walletSame r (a.postedAll es) (b.postedAll es) := by
  induction es generalizing a b with
  | nil => exact h
  | cons e es ih => exact ih (h.posted e)

/-- What transactions of the wallet keep: the books, and every entry that was there. -/
def walletRely : Txn.Rely Db Row where
  inv := Db.Books
  change a b := ∃ es, b = a.postedAll es
  same := walletSame
  change_refl _ := ⟨[], rfl⟩
  change_trans := by
    rintro a _ _ ⟨es, rfl⟩ ⟨es', rfl⟩
    exact ⟨es ++ es', (a.postedAll_append es es').symm⟩
  same_refl := by
    intro r _
    cases r <;> simp [walletSame]
  same_trans := by
    intro r a b c h h'
    cases r with
    | user u => exact ⟨h.1.trans h'.1, h.2.trans h'.2⟩
    | ledgerKey k => exact Eq.trans h h'
    | _ => trivial

/-- A transaction between two calls: it has posted `es`, holds the rows of
`es`, and keeps the books whatever the others commit. -/
structure Held (t : Local) (db : Db) (es : List LedgerEntry) : Prop where
  staged : t.staged = []
  view : ∀ db', t.view db' = db'.postedAll es
  users : ∀ e ∈ es, t.locks (.user e.userId)
  keys : ∀ e ∈ es, t.locks (.ledgerKey e.idempotencyKey)
  books : ∀ db', walletRely.Interf t.locks db db' → (db'.postedAll es).Books

section

variable {t t' : Local} {db db' : Db} {es : List LedgerEntry}

theorem Held.sameWrites (h : Held t db es) (ht : t.SameWrites t') (hi : walletRely.Interf t.locks db db') :
    Held t' db' es where
  staged := ht.staged.trans h.staged
  view db := by
    simp only [Txn.Local.view, ht.pending]
    exact h.view db
  users e he := ht.locks _ (h.users e he)
  keys e he := ht.locks _ (h.keys e he)
  books _ hi' := h.books _ (hi.trans (hi'.mono ht.locks))

theorem Held.keepsWallet (h : Held t db es) (u : Int) (k : Key) : KeepsWallet walletRely t u k where
  user {a b} hs := by
    simp only [h.view]
    exact (walletSame.postedAll (r := .user u) (a := a) (b := b) hs es).1.symm
  key {a b} hs := by
    simp only [h.view]
    exact (walletSame.postedAll (r := .ledgerKey k) (a := a) (b := b) hs es).symm

/-- A posting of a safe transaction: the entry joins what it holds. -/
theorem Held.postedAt (h : Held t db es) {p : Posting} {et : EntryType} {key : Key}
    {draft : User → Except Err Draft} (hd : Drafts et draft) {e : LedgerEntry} {db₁ db₂ db₃ db₄ : Db}
    (h₁ : walletRely.Interf t.locks db db₁) (h₃ : walletRely.Interf (t.looked p.userId db₂).locks db₁ db₃)
    (hp : Posts (t.view db₃) p et key draft e) (h₄ : walletRely.Interf (t.postedAt e db₂).locks db₃ db₄) :
    Held (t.postedAt e db₂) db₄ (es ++ [e]) where
  staged := h.staged
  view db' := by simp only [Txn.Local.view_postedAt, h.view, Db.postedAll_append, Db.postedAll_singleton]
  users e' he' := by
    rw [Txn.Local.locks_postedAt]
    rcases List.mem_append.mp he' with he' | he'
    · exact .inr (.inr (h.users e' he'))
    · simp only [List.mem_singleton] at he'
      exact .inr (.inl (he' ▸ rfl))
  keys e' he' := by
    rw [Txn.Local.locks_postedAt]
    rcases List.mem_append.mp he' with he' | he'
    · exact .inr (.inr (h.keys e' he'))
    · simp only [List.mem_singleton] at he'
      exact .inl (he' ▸ rfl)
  books db' hi := by
    have h₃' := h₄.trans hi
    have hkept : ∀ r, t.locks r → (t.postedAt e db₂).locks r :=
      fun r hr => Txn.Local.locks_postedAt.mpr (.inr (.inr hr))
    have hbooks : (db'.postedAll es).Books :=
      h.books db' ((h₁.trans (h₃.mono fun r hr => .inr hr)).trans (h₃'.mono hkept))
    rw [Db.postedAll_append, Db.postedAll_singleton]
    -- the row and the key are locked, so the entry posts on `db'` as it did on `db₃`
    have huser := (h.keepsWallet p.userId key).user
      (h₃'.same (.user p.userId) (Txn.Local.locks_postedAt.mpr (.inr (.inl (hp.entry_eq.1 ▸ rfl)))))
    have hkey := (h.keepsWallet p.userId key).key
      (h₃'.same (.ledgerKey key) (Txn.Local.locks_postedAt.mpr (.inl (hp.entry_eq.2 ▸ rfl))))
    rw [h.view, h.view] at huser hkey
    rw [h.view] at hp
    exact hbooks.posted hd (hp.congr huser hkey)

theorem postedAll_same {r : Row} (hu : ∀ e ∈ es, r ≠ .user e.userId)
    (hk : ∀ e ∈ es, r ≠ .ledgerKey e.idempotencyKey) : walletSame r db (db.postedAll es) := by
  induction es generalizing db with
  | nil => exact walletRely.same_refl r db
  | cons e es ih =>
    refine walletRely.same_trans ?_ (ih (fun e' h' => hu e' (by simp [h']))
      fun e' h' => hk e' (by simp [h']))
    have hu := hu e (by simp)
    have hk := hk e (by simp)
    cases r with
    | user u =>
      have he : e.userId ≠ u := fun h => hu (h ▸ rfl)
      exact ⟨by rw [Db.posted_users, if_neg (Ne.symm he)], by rw [Db.entriesOf_posted, if_neg he, List.append_nil]⟩
    | ledgerKey k =>
      have he : e.idempotencyKey ≠ k := fun h => hk (h ▸ rfl)
      simp only [walletRely, walletSame, Db.findEntry_posted, if_neg he, Option.or_none]
    | _ => trivial

/-- Such a transaction may commit. -/
theorem Held.ends (h : Held t db es) : Txn.ends walletRely t db := by
  intro db' hi
  refine ⟨?_, ⟨es, h.view db'⟩, fun r hr => ?_⟩
  · rw [h.view]
    exact h.books db' hi
  · rw [h.view]
    exact postedAll_same (fun e he hre => hr (hre ▸ h.users e he)) fun e he hre => hr (hre ▸ h.keys e he)

end

/-- Whatever a transaction calls, it keeps the books. -/
theorem WalletTxn.safe (w : WalletTxn) : ∀ {t : Local} {db : Db} {es : List LedgerEntry},
    db.Books → Held t db es → w.prog.Safe walletRely (fun _ _ _ => True) t db := by
  induction w with
  | commit =>
    intro t db es hdb h db' hi
    have h' := h.sameWrites .refl hi
    simp only [h.staged, Txn.execAll, Txn.Local.clear_of_nil h.staged]
    exact h'.ends
  | rollback e => exact fun _ _ _ _ => trivial
  | call c k ih =>
    intro t db es hdb h
    refine Txn.Prog.safe_bind hdb (Txn.Prog.safe_attempt ?_)
    rw [c.prog_eq]
    refine safe_post h.staged hdb (h.keepsWallet _ _) (fun err t' db' ht hi => ?_)
      (fun e db₁ db₂ db₃ hl _ hi => ?_) fun e db₁ db₂ db₃ hl hi hp db₄ h₄ => ?_
    · exact ih (.error err) hi.inv (h.sameWrites ht hi)
    · have hi' := hl.before.trans ((hl.held.trans hi).mono fun r hr => .inr hr)
      exact ih (.ok e) hi.inv (h.sameWrites ⟨rfl, rfl, fun r hr => .inr hr⟩ hi')
    · exact ih (.ok e) h₄.inv (h.postedAt (c.drafts hp.pos) hl.before (hl.held.trans hi) hp h₄)

theorem WalletTxn.reach_good {ι : Type} [DecidableEq ι] {db : Db} {s : Txn.Sys ι WalletTxn Db Row Err Ext}
    (hdb : db.Books)
    (h : Txn.Sys.Reach WalletTxn.prog (fun _ => True) (fun _ _ _ _ => True) { db := db } s) :
    s.Good walletRely (fun _ _ _ _ => True) := by
  refine Txn.Sys.Reach.good (.idle_start hdb) (fun w _ db' hdb' => ?_) h
  have hheld : Held {} db' [] := ⟨rfl, fun _ => rfl, by simp, by simp, fun _ hi => hi.inv⟩
  exact w.safe hdb' hheld

/-- **The wallet is linearizable.** In every state of every interleaving of
transactions that call the wallet, whichever users and keys they share: no
key occurs twice among the committed entries, and every wallet is covered and
is the sum of its entries, which continue each other's running balances. And
whatever happens next, what it commits are entries on top of all of these. -/
theorem wallet_linearizable {ι : Type} [DecidableEq ι] {db : Db} {s : Txn.Sys ι WalletTxn Db Row Err Ext}
    (hdb : db.Books)
    (h : Txn.Sys.Reach WalletTxn.prog (fun _ => True) (fun _ _ _ _ => True) { db := db } s) :
    (s.db.ledger.map (·.idempotencyKey)).Nodup ∧
    (∀ u user, s.db.users u = .some user →
      0 ≤ user.cachedReservedPaise ∧ user.cachedReservedPaise ≤ user.cachedBalancePaise ∧
      user.cachedBalancePaise = ((s.db.entriesOf u).map (·.amountPaise)).sum ∧
      ∃ a, user.Shows a ∧ History (s.db.entriesOf u) a) ∧
    ∀ a s', s.act WalletTxn.prog a = .some s' →
      ∃ es, s'.db = s.db.postedAll es ∧ s'.db.ledger = s.db.ledger ++ es := by
  have hgood := WalletTxn.reach_good hdb h
  refine ⟨hgood.inv.keys, fun u user hu => ?_, fun a s' ha => ?_⟩
  · obtain ⟨a, hk⟩ := hgood.inv.keeps u user hu
    refine ⟨?_, ?_, ?_, a, hk.shows, hk.history⟩
    · exact hk.shows.reserved ▸ a.nonneg
    · exact hk.shows.reserved ▸ hk.shows.balance ▸ a.covered
    · exact hk.shows.balance.trans hk.history.balance
  · obtain ⟨es, hes⟩ := hgood.change ha
    exact ⟨es, hes, hes ▸ Db.postedAll_ledger _ _⟩

/-- Two deposits on one wallet, the second waiting for the first one's row. -/
theorem wallet_linearizable_of_two_credits :
    let db : Db := { users := fun u => if u = 7 then .some { telegramId := 7 } else .none }
    let txn (n : Int) (key : String) : WalletTxn :=
      .call (.credit ⟨7, n, "top-up", .none, .none⟩ (.some (.text key))) fun _ => .commit
    let s₀ : Txn.Sys Nat WalletTxn Db Row Err Ext := { db := db }
    let run := s₀.exec WalletTxn.prog
      ([.start 0 (txn 500 "a"), .start 1 (txn 300 "b"), .step 1] ++ List.replicate 9 (.step 0) ++
        List.replicate 8 (.step 1))
    run.map (fun s => (s.db.users 7).map (·.cachedBalancePaise)) = .some (.some 800) ∧
      ∀ s, run = .some s → (s.db.ledger.map (·.idempotencyKey)).Nodup := by
  intro db txn s₀ run
  refine ⟨by decide +kernel, fun s hs => ?_⟩
  have hdb : db.Books := by
    refine ⟨List.nodup_nil, fun u user hu => ⟨.empty, hu, ?_, .nil⟩⟩
    by_cases h : u = 7
    · subst h
      obtain rfl : { telegramId := 7 } = user := by simpa [db] using hu
      exact ⟨rfl, rfl⟩
    · simp [db, h] at hu
  exact (wallet_linearizable hdb (Txn.Sys.exec_reach _ .refl (fun _ _ _ => trivial) hs)).1

end Falaron
